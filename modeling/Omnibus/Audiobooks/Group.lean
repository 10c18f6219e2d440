import Mathlib.Algebra.Order.Ring.Int
import Mathlib.Data.List.Induction
import Omnibus.Scan.Partition

/-!
# Audiobook files grouped into books

`group_into_books` and the projection that lets `diff_library` see a group as one file. An MP3
is keyed on its directory and any other file on its own path, so the keys tell the groups apart
only when no MP3 lies at the scan root and no directory of MP3s is named as a file is.
-/

namespace Omnibus.Audiobooks

open Omnibus.Scan

structure AudiobookStatEntry where
  filename : String
  scanKey : String
  mtimeEpoch : Int
  sizeBytes : Int
  error : Option String
  deriving DecidableEq, Repr

structure AudiobookGroup where
  groupPath : String
  scanKey : String
  parts : List AudiobookStatEntry
  totalSizeBytes : Int
  maxMtimeEpoch : Int
  format : String
  deriving DecidableEq, Repr

section Paths

def extensionOf (filename : String) : String :=
  match (splitAtDot (fileName filename)).2 with
  | some extension => String.ofList extension
  | none => ""

def toAsciiUppercase (text : String) : String := String.ofList (text.toList.map Char.toUpper)

/-- `Path::parent`: slashes that end the path or the parent do not count, except the root's. -/
def parentDir (filename : String) : String :=
  let rest := (filename.toList.reverse.dropWhile (· = '/')).dropWhile (· ≠ '/')
  let parent := rest.dropWhile (· = '/')
  if parent = [] ∧ rest ≠ [] then "/" else String.ofList parent.reverse

def scanKeyFor (relativePath : String) : String := relativePath

end Paths

section Model

/-- A sum of `i64`s, which wraps. -/
def wrapI64 (number : Int) : Int := number.bmod (2 ^ 64)

def single (entry : AudiobookStatEntry) (format : String) : AudiobookGroup where
  groupPath := entry.filename
  scanKey := if entry.scanKey = "" then "" else scanKeyFor entry.filename
  parts := [entry]
  totalSizeBytes := entry.sizeBytes
  maxMtimeEpoch := entry.mtimeEpoch
  format := format

def directory (bucket : String × List AudiobookStatEntry) : AudiobookGroup where
  groupPath := bucket.1
  scanKey := scanKeyFor bucket.1
  parts := bucket.2
  totalSizeBytes := wrapI64 (bucket.2.map (·.sizeBytes)).sum
  maxMtimeEpoch := (bucket.2.map (·.mtimeEpoch)).max?.getD 0
  format := "MP3"

/-- `mp3_buckets.entry(dir).or_default().push(entry)`, on a map kept in the order of its keys. -/
def pushBucket {Item : Type} (dir : String) (entry : Item) :
    List (String × List Item) → List (String × List Item)
  | [] => [(dir, [entry])]
  | (key, parts) :: rest =>
      if dir = key then (key, parts ++ [entry]) :: rest
      else if dir < key then (dir, [entry]) :: (key, parts) :: rest
      else (key, parts) :: pushBucket dir entry rest

structure Grouping where
  singles : List AudiobookGroup
  mp3Buckets : List (String × List AudiobookStatEntry)

/-- The loop of `group_into_books` for one entry. -/
def Grouping.place (out : Grouping) (entry : AudiobookStatEntry) : Grouping :=
  if entry.scanKey = "" then { out with singles := out.singles ++ [single entry "MP3"] }
  else
    let ext := toAsciiUppercase (extensionOf entry.filename)
    if ext = "M4B" ∨ ext = "M4A" then
      { out with singles := out.singles ++ [single entry ext] }
    else if ext = "MP3" then
      { out with mp3Buckets := pushBucket (parentDir entry.filename) entry out.mp3Buckets }
    else { out with singles := out.singles ++ [single entry ext] }

def groupIntoBooks (entries : List AudiobookStatEntry) : List AudiobookGroup :=
  let out := entries.foldl Grouping.place ⟨[], []⟩
  (out.singles ++ out.mp3Buckets.map directory).insertionSort (·.groupPath ≤ ·.groupPath)

def AudiobookGroup.toStat (group : AudiobookGroup) : StatEntry where
  filename := group.groupPath
  scanKey := group.scanKey
  mtimeEpoch := group.maxMtimeEpoch
  sizeBytes := group.totalSizeBytes

def projectGroupsToStat (groups : List AudiobookGroup) : List StatEntry :=
  (groups.filter (·.scanKey ≠ "")).map (·.toStat)

end Model

section Statement

/-- What a walk lists: no name twice, a file keyed on its name and a placeholder on nothing. -/
structure StatListing (entries : List AudiobookStatEntry) : Prop where
  names : (entries.map (·.filename)).Nodup
  keys : ∀ entry ∈ entries, entry.scanKey = "" ∨ entry.scanKey = entry.filename

def AudiobookStatEntry.isMp3 (entry : AudiobookStatEntry) : Bool :=
  entry.scanKey ≠ "" && toAsciiUppercase (extensionOf entry.filename) = "MP3"

def AudiobookGroup.isReal (group : AudiobookGroup) : Bool := group.parts.all (·.scanKey ≠ "")

def FitsI64 (number : Int) : Prop := -2 ^ 63 ≤ number ∧ number < 2 ^ 63

def siblings (entries : List AudiobookStatEntry) (dir : String) : List AudiobookStatEntry :=
  entries.filter fun entry => entry.isMp3 && parentDir entry.filename = dir

structure KeyedRows (db : List IndexedRow) : Prop where
  keys : ((db.filter (·.scanKey ≠ "")).map (·.scanKey)).Nodup
  uuids : (db.map (·.uuid)).Nodup

structure LosesNoFile (entries : List AudiobookStatEntry) (groups : List AudiobookGroup) :
    Prop where
  once : (groups.flatMap (·.parts)).Perm entries
  keyed : ∀ group ∈ groups, group.isReal = true → group.scanKey ≠ ""
  apart : ((groups.filter (·.isReal)).map (·.scanKey)).Nodup
  size : ∀ group ∈ groups, group.totalSizeBytes = (group.parts.map (·.sizeBytes)).sum
  mtime : ∀ group ∈ groups, (∀ part ∈ group.parts, part.mtimeEpoch ≤ group.maxMtimeEpoch) ∧
    ∃ part ∈ group.parts, part.mtimeEpoch = group.maxMtimeEpoch
  accounted : ∀ (order : Iteration) (db : List IndexedRow) (libraryRoot : String)
    (trustworthy : Bool), KeyedRows db → ∀ entry ∈ entries, entry.scanKey ≠ "" →
      ∃ group ∈ groups, entry ∈ group.parts ∧ ∃! bucket,
        (diffLibraryBy order (projectGroupsToStat groups) db libraryRoot trustworthy).Holds db
          group.toStat bucket

/-- Every directory of MP3s has a name of its own, and its sizes add up in an `i64`. -/
def DirectoriesApart (entries : List AudiobookStatEntry) : Prop :=
  ∀ entry ∈ entries, entry.isMp3 = true →
    parentDir entry.filename ≠ "" ∧
      (∀ other ∈ entries, other.scanKey ≠ "" → other.isMp3 = false →
        other.filename ≠ parentDir entry.filename) ∧
      FitsI64 ((siblings entries (parentDir entry.filename)).map (·.sizeBytes)).sum

end Statement

section Buckets

variable {Item : Type} {dir : String} {entry : Item} {buckets : List (String × List Item)}

def InOrder (buckets : List (String × List Item)) : Prop :=
  buckets.Pairwise fun left right => left.1 < right.1

def heldUnder (key : String) : List (String × List Item) → List Item
  | [] => []
  | bucket :: rest => if bucket.1 = key then bucket.2 else heldUnder key rest

theorem push_bucket_keys {key : String} :
    (∃ bucket ∈ pushBucket dir entry buckets, bucket.1 = key) ↔
      key = dir ∨ ∃ bucket ∈ buckets, bucket.1 = key := by
  induction buckets with
  | nil => simp [pushBucket, eq_comm]
  | cons head rest ih =>
      simp only [pushBucket]
      split
      · next same =>
          simp only [List.mem_cons, exists_eq_or_imp, same]
          grind
      · split
        · simp only [List.mem_cons, exists_eq_or_imp]
          grind
        · simp only [List.mem_cons, exists_eq_or_imp, ih]
          grind

theorem push_bucket_in_order (ordered : InOrder buckets) :
    InOrder (pushBucket dir entry buckets) := by
  unfold InOrder at *
  induction buckets with
  | nil => exact List.pairwise_singleton ..
  | cons head rest ih =>
      obtain ⟨first, ordered⟩ := List.pairwise_cons.mp ordered
      simp only [pushBucket]
      split
      · exact List.pairwise_cons.mpr ⟨first, ordered⟩
      · next apart =>
          split
          · next before =>
              refine List.pairwise_cons.mpr ⟨fun bucket member => ?_,
                List.pairwise_cons.mpr ⟨first, ordered⟩⟩
              rcases List.mem_cons.mp member with rfl | inRest
              · exact before
              · exact before.trans (first bucket inRest)
          · next notBefore =>
              refine List.pairwise_cons.mpr ⟨fun bucket member => ?_, ih ordered⟩
              have later : head.1 < dir := lt_of_le_of_ne (not_lt.mp notBefore) (Ne.symm apart)
              rcases push_bucket_keys.mp ⟨bucket, member, rfl⟩ with same | ⟨other, inRest, same⟩
              · rw [same]
                exact later
              · rw [← same]
                exact first other inRest

theorem held_under_absent {key : String} (absent : ∀ bucket ∈ buckets, bucket.1 ≠ key) :
    heldUnder key buckets = [] := by
  induction buckets with
  | nil => rfl
  | cons head rest ih =>
      simp only [heldUnder]
      rw [if_neg (absent head List.mem_cons_self)]
      exact ih fun bucket member => absent bucket (List.mem_cons_of_mem _ member)

theorem held_under_push (ordered : InOrder buckets) (key : String) :
    heldUnder key (pushBucket dir entry buckets) =
      if key = dir then heldUnder dir buckets ++ [entry] else heldUnder key buckets := by
  unfold InOrder at ordered
  induction buckets with
  | nil =>
      by_cases same : key = dir
      · simp [pushBucket, heldUnder, same]
      · simp [pushBucket, heldUnder, same, Ne.symm same]
  | cons head rest ih =>
      obtain ⟨first, ordered⟩ := List.pairwise_cons.mp ordered
      simp only [pushBucket]
      by_cases isHead : dir = head.1
      · by_cases isDir : key = dir
        · simp [heldUnder, isDir, isHead]
        · simp [heldUnder, isHead, isHead ▸ isDir, Ne.symm (isHead ▸ isDir)]
      · rw [if_neg isHead]
        by_cases before : dir < head.1
        · -- the key comes before all others, so the map held nothing under it
          have absent : heldUnder dir rest = [] := held_under_absent fun bucket inRest =>
            (before.trans (first bucket inRest)).ne'
          rw [if_pos before]
          by_cases isDir : key = dir
          · simp [heldUnder, isDir, Ne.symm isHead, absent]
          · simp [heldUnder, isDir, Ne.symm isDir]
        · rw [if_neg before]
          by_cases found : head.1 = key
          · have apart : key ≠ dir := fun same => isHead (same.symm.trans found.symm)
            simp [heldUnder, found, apart]
          · simp only [heldUnder, found, Ne.symm isHead, if_false]
            exact ih ordered

theorem held_under_key (ordered : InOrder buckets) {bucket : String × List Item}
    (member : bucket ∈ buckets) : heldUnder bucket.1 buckets = bucket.2 := by
  unfold InOrder at ordered
  induction buckets with
  | nil => exact absurd member List.not_mem_nil
  | cons head rest ih =>
      obtain ⟨first, ordered⟩ := List.pairwise_cons.mp ordered
      simp only [heldUnder]
      rcases List.mem_cons.mp member with rfl | inRest
      · rw [if_pos rfl]
      · rw [if_neg (first bucket inRest).ne]
        exact ih ordered inRest

end Buckets

section Run

variable {entries : List AudiobookStatEntry} {out : Grouping} {entry : AudiobookStatEntry}

def alone (entry : AudiobookStatEntry) : AudiobookGroup :=
  single entry
    (if entry.scanKey = "" then "MP3" else toAsciiUppercase (extensionOf entry.filename))

theorem place_alone (isAlone : entry.isMp3 = false) :
    out.place entry = { out with singles := out.singles ++ [alone entry] } := by
  unfold Grouping.place alone
  unfold AudiobookStatEntry.isMp3 at isAlone
  by_cases noKey : entry.scanKey = ""
  · rw [if_pos noKey, if_pos noKey]
  · rw [if_neg noKey, if_neg noKey]
    have notMp3 : toAsciiUppercase (extensionOf entry.filename) ≠ "MP3" := by
      simpa [noKey] using isAlone
    dsimp only
    rw [if_neg notMp3, ite_self]

theorem place_mp3 (isMp3 : entry.isMp3 = true) : out.place entry =
    { out with mp3Buckets := pushBucket (parentDir entry.filename) entry out.mp3Buckets } := by
  unfold Grouping.place
  unfold AudiobookStatEntry.isMp3 at isMp3
  simp only [ne_eq, decide_not, Bool.and_eq_true, Bool.not_eq_eq_eq_not, Bool.not_true,
    decide_eq_false_iff_not, decide_eq_true_eq] at isMp3
  rw [if_neg isMp3.1]
  simp [isMp3.2]

structure Grouped (entries : List AudiobookStatEntry) (out : Grouping) : Prop where
  singles : out.singles = (entries.filter (!·.isMp3)).map alone
  ordered : InOrder out.mp3Buckets
  held : ∀ key, heldUnder key out.mp3Buckets = siblings entries key
  keys : ∀ key, (∃ bucket ∈ out.mp3Buckets, bucket.1 = key) ↔
    ∃ entry ∈ entries, entry.isMp3 = true ∧ parentDir entry.filename = key

theorem place_grouped (grouped : Grouped entries out) :
    Grouped (entries ++ [entry]) (out.place entry) := by
  cases isMp3 : entry.isMp3 with
  | false =>
      rw [place_alone isMp3]
      refine ⟨?_, grouped.ordered, fun key => ?_, fun key => ?_⟩
      · simp [grouped.singles, isMp3]
      · simp [grouped.held, siblings, isMp3]
      · simp [grouped.keys, isMp3, or_and_right, exists_or]
  | true =>
      rw [place_mp3 isMp3]
      refine ⟨?_, push_bucket_in_order grouped.ordered, fun key => ?_, fun key => ?_⟩
      · simp [grouped.singles, isMp3]
      · dsimp only
        rw [held_under_push grouped.ordered, grouped.held, grouped.held]
        by_cases same : key = parentDir entry.filename
        · simp [siblings, isMp3, same]
        · simp [siblings, isMp3, same, Ne.symm same]
      · rw [push_bucket_keys, grouped.keys]
        simp only [List.mem_append, List.mem_singleton, or_and_right, exists_or, exists_eq_left,
          isMp3, true_and]
        rw [or_comm, eq_comm (a := key)]

theorem fold_grouped (entries : List AudiobookStatEntry) :
    Grouped entries (entries.foldl Grouping.place ⟨[], []⟩) := by
  induction entries using List.reverseRecOn with
  | nil => exact ⟨rfl, List.Pairwise.nil, fun _ => rfl, fun _ => by simp⟩
  | append_singleton entries entry ih =>
      rw [List.foldl_append]
      exact place_grouped ih

def mp3Buckets (entries : List AudiobookStatEntry) :
    List (String × List AudiobookStatEntry) :=
  (entries.foldl Grouping.place ⟨[], []⟩).mp3Buckets

theorem groups_perm (entries : List AudiobookStatEntry) : (groupIntoBooks entries).Perm
    ((entries.filter (!·.isMp3)).map alone ++ (mp3Buckets entries).map directory) := by
  unfold groupIntoBooks mp3Buckets
  dsimp only
  rw [(fold_grouped entries).singles]
  exact List.perm_insertionSort ..

theorem mem_mp3_buckets (bucket : String × List AudiobookStatEntry) :
    bucket ∈ mp3Buckets entries ↔
      bucket.2 = siblings entries bucket.1 ∧ bucket.2 ≠ [] := by
  have grouped := fold_grouped entries
  have filled (key : String) : siblings entries key ≠ [] ↔
      ∃ entry ∈ entries, entry.isMp3 = true ∧ parentDir entry.filename = key := by
    simp [siblings, List.filter_eq_nil_iff]
  constructor
  · intro member
    have held := (held_under_key grouped.ordered member).symm.trans (grouped.held bucket.1)
    rw [held, filled]
    exact ⟨rfl, (grouped.keys bucket.1).mp ⟨bucket, member, rfl⟩⟩
  · intro ⟨held, isFilled⟩
    rw [held, filled, ← grouped.keys] at isFilled
    obtain ⟨other, member, same⟩ := isFilled
    have otherHeld := (held_under_key grouped.ordered member).symm.trans (grouped.held other.1)
    have isBucket : other = bucket := Prod.ext same (by rw [otherHeld, held, same])
    rwa [isBucket] at member

theorem mp3_buckets_in_order (entries : List AudiobookStatEntry) : InOrder (mp3Buckets entries) :=
  (fold_grouped entries).ordered

end Run

section Groups

variable {entries : List AudiobookStatEntry}

theorem mem_siblings {key : String} (entry : AudiobookStatEntry) :
    entry ∈ siblings entries key ↔
      entry ∈ entries ∧ entry.isMp3 = true ∧ parentDir entry.filename = key := by
  simp [siblings]

theorem real_of_mp3 {entry : AudiobookStatEntry} (isMp3 : entry.isMp3 = true) :
    entry.scanKey ≠ "" := by
  unfold AudiobookStatEntry.isMp3 at isMp3
  simp only [ne_eq, decide_not, Bool.and_eq_true, Bool.not_eq_eq_eq_not, Bool.not_true,
    decide_eq_false_iff_not] at isMp3
  exact isMp3.1

theorem bucket_of_mp3 {entry : AudiobookStatEntry} (member : entry ∈ entries)
    (isMp3 : entry.isMp3 = true) :
    (parentDir entry.filename, siblings entries (parentDir entry.filename)) ∈ mp3Buckets entries :=
  (mem_mp3_buckets _).mpr
    ⟨rfl, List.ne_nil_of_mem ((mem_siblings entry).mpr ⟨member, isMp3, rfl⟩)⟩

theorem mp3_of_bucket {bucket : String × List AudiobookStatEntry}
    (member : bucket ∈ mp3Buckets entries) :
    ∃ entry ∈ entries, entry.isMp3 = true ∧ parentDir entry.filename = bucket.1 := by
  obtain ⟨held, filled⟩ := (mem_mp3_buckets bucket).mp member
  obtain ⟨entry, inBucket⟩ := List.exists_mem_of_ne_nil _ filled
  rw [held, mem_siblings] at inBucket
  exact ⟨entry, inBucket⟩

theorem mp3_buckets_parts (distinct : entries.Nodup) :
    ((mp3Buckets entries).flatMap (·.2)).Perm (entries.filter (·.isMp3)) := by
  have once : ((mp3Buckets entries).flatMap (·.2)).Nodup := by
    rw [List.nodup_flatMap]
    constructor
    · intro bucket member
      rw [((mem_mp3_buckets bucket).mp member).1]
      exact distinct.filter _
    · apply (mp3_buckets_in_order entries).imp_of_mem
      intro left right leftMem rightMem before entry inLeft inRight
      dsimp only at inLeft inRight
      rw [((mem_mp3_buckets left).mp leftMem).1, mem_siblings] at inLeft
      rw [((mem_mp3_buckets right).mp rightMem).1, mem_siblings] at inRight
      exact before.ne (inLeft.2.2.symm.trans inRight.2.2)
  rw [List.perm_ext_iff_of_nodup once (distinct.filter _)]
  intro entry
  rw [List.mem_flatMap, List.mem_filter]
  constructor
  · intro ⟨bucket, member, inBucket⟩
    rw [((mem_mp3_buckets bucket).mp member).1, mem_siblings] at inBucket
    exact ⟨inBucket.1, inBucket.2.1⟩
  · intro ⟨member, isMp3⟩
    exact ⟨_, bucket_of_mp3 member isMp3, (mem_siblings entry).mpr ⟨member, isMp3, rfl⟩⟩

theorem groups_parts (distinct : entries.Nodup) :
    ((groupIntoBooks entries).flatMap (·.parts)).Perm entries := by
  have split := (groups_perm entries).flatMap_right (·.parts)
  rw [List.flatMap_append, List.flatMap_map, List.flatMap_map] at split
  have singles : (entries.filter (!·.isMp3)).flatMap (fun entry => (alone entry).parts) =
      entries.filter (!·.isMp3) := List.flatMap_singleton' _
  rw [singles] at split
  apply split.trans
  apply ((mp3_buckets_parts distinct).append_left _).trans
  apply List.perm_append_comm.trans
  exact List.filter_append_perm (·.isMp3) entries

theorem mem_groups (group : AudiobookGroup) : group ∈ groupIntoBooks entries ↔
    (∃ entry ∈ entries, entry.isMp3 = false ∧ alone entry = group) ∨
      ∃ bucket ∈ mp3Buckets entries, directory bucket = group := by
  rw [(groups_perm entries).mem_iff, List.mem_append, List.mem_map, List.mem_map]
  simp only [List.mem_filter, Bool.not_eq_true', and_assoc]

theorem alone_real (entry : AudiobookStatEntry) :
    (alone entry).isReal = true ↔ entry.scanKey ≠ "" := by
  simp [AudiobookGroup.isReal, alone, single]

theorem directory_real {bucket : String × List AudiobookStatEntry}
    (member : bucket ∈ mp3Buckets entries) : (directory bucket).isReal = true := by
  unfold AudiobookGroup.isReal directory
  rw [List.all_eq_true]
  intro entry inBucket
  dsimp only at inBucket
  rw [((mem_mp3_buckets bucket).mp member).1, mem_siblings] at inBucket
  exact decide_eq_true (real_of_mp3 inBucket.2.1)

theorem directory_mtime {bucket : String × List AudiobookStatEntry} (filled : bucket.2 ≠ []) :
    (∀ part ∈ bucket.2, part.mtimeEpoch ≤ (directory bucket).maxMtimeEpoch) ∧
      ∃ part ∈ bucket.2, part.mtimeEpoch = (directory bucket).maxMtimeEpoch := by
  obtain ⟨latest, isLatest⟩ : ∃ latest, (bucket.2.map (·.mtimeEpoch)).max? = some latest :=
    Option.isSome_iff_exists.mp (by simpa [List.isSome_max?_iff] using filled)
  have same : (directory bucket).maxMtimeEpoch = latest := by simp [directory, isLatest]
  rw [List.max?_eq_some_iff, List.mem_map] at isLatest
  rw [same]
  exact ⟨fun part member => isLatest.2 _ (List.mem_map_of_mem member), isLatest.1⟩

end Groups

section Laws

variable {entries : List AudiobookStatEntry}

theorem wrap_i64_eq_iff (number : Int) : wrapI64 number = number ↔ FitsI64 number := by
  unfold wrapI64 FitsI64 Int.bmod
  dsimp only
  split <;> omega

theorem alone_key {entry : AudiobookStatEntry} (hasKey : entry.scanKey ≠ "") :
    (alone entry).scanKey = entry.filename := if_neg hasKey

variable (listing : StatListing entries)
include listing

theorem filename_ne {entry : AudiobookStatEntry} (member : entry ∈ entries)
    (hasKey : entry.scanKey ≠ "") : entry.filename ≠ "" := by
  rcases listing.keys entry member with noKey | same
  · exact absurd noKey hasKey
  · exact same ▸ hasKey

theorem keyed_iff : (∀ group ∈ groupIntoBooks entries, group.isReal = true → group.scanKey ≠ "") ↔
    ∀ entry ∈ entries, entry.isMp3 = true → parentDir entry.filename ≠ "" := by
  constructor
  · intro keyed entry member isMp3
    have inBuckets := bucket_of_mp3 member isMp3
    exact keyed (directory _) ((mem_groups _).mpr (.inr ⟨_, inBuckets, rfl⟩))
      (directory_real inBuckets)
  · intro named group member isReal
    rcases (mem_groups group).mp member with ⟨entry, entryMem, _, rfl⟩ | ⟨bucket, inBuckets, rfl⟩
    · rw [alone_real] at isReal
      rw [alone_key isReal]
      exact filename_ne listing entryMem isReal
    · obtain ⟨entry, entryMem, isMp3, same⟩ := mp3_of_bucket inBuckets
      change bucket.1 ≠ ""
      rw [← same]
      exact named entry entryMem isMp3

/-- Real groups have keys of their own when no directory of MP3s is named as a file is. -/
theorem apart_iff : (((groupIntoBooks entries).filter (·.isReal)).map (·.scanKey)).Nodup ↔
    ∀ entry ∈ entries, entry.isMp3 = true → ∀ other ∈ entries, other.scanKey ≠ "" →
      other.isMp3 = false → other.filename ≠ parentDir entry.filename := by
  have same := ((groups_perm entries).filter (·.isReal)).map (·.scanKey)
  rw [same.nodup_iff, List.filter_append, List.map_append, List.nodup_append]
  have singles : ((((entries.filter (!·.isMp3)).map alone).filter (·.isReal)).map
      (·.scanKey)).Nodup := by
    rw [List.Nodup, List.pairwise_map, List.pairwise_filter, List.pairwise_map,
      List.pairwise_filter]
    apply (List.pairwise_map.mp listing.names).imp
    intro left right apart _ _ leftReal rightReal
    rw [alone_real] at leftReal rightReal
    rw [alone_key leftReal, alone_key rightReal]
    exact apart
  have directories : ((((mp3Buckets entries).map directory).filter (·.isReal)).map
      (·.scanKey)).Nodup := by
    rw [List.Nodup, List.pairwise_map, List.pairwise_filter, List.pairwise_map]
    apply (mp3_buckets_in_order entries).imp
    intro left right before _ _
    exact before.ne
  simp only [singles, directories, true_and, List.mem_map, List.mem_filter]
  constructor
  · intro apart entry member isMp3 other otherMem hasKey notMp3
    have inBuckets := bucket_of_mp3 member isMp3
    rw [← alone_key hasKey]
    exact apart _ ⟨alone other, ⟨⟨other, ⟨otherMem, by rw [notMp3]; rfl⟩, rfl⟩,
      (alone_real other).mpr hasKey⟩, rfl⟩ (directory _).scanKey
      ⟨directory _, ⟨⟨_, inBuckets, rfl⟩, directory_real inBuckets⟩, rfl⟩
  · rintro apart _ ⟨_, ⟨⟨other, ⟨otherMem, notMp3⟩, rfl⟩, isReal⟩, rfl⟩ _
      ⟨_, ⟨⟨bucket, inBuckets, rfl⟩, _⟩, rfl⟩
    obtain ⟨entry, entryMem, isMp3, dir⟩ := mp3_of_bucket inBuckets
    rw [alone_real] at isReal
    rw [alone_key isReal]
    change other.filename ≠ bucket.1
    rw [← dir]
    exact apart entry entryMem isMp3 other otherMem isReal (by simpa using notMp3)

omit listing in
theorem size_iff : (∀ group ∈ groupIntoBooks entries,
      group.totalSizeBytes = (group.parts.map (·.sizeBytes)).sum) ↔
    ∀ entry ∈ entries, entry.isMp3 = true →
      FitsI64 ((siblings entries (parentDir entry.filename)).map (·.sizeBytes)).sum := by
  constructor
  · intro sizes entry member isMp3
    have inBuckets := bucket_of_mp3 member isMp3
    exact (wrap_i64_eq_iff _).mp
      (sizes (directory _) ((mem_groups _).mpr (.inr ⟨_, inBuckets, rfl⟩)))
  · intro fits group member
    rcases (mem_groups group).mp member with ⟨entry, entryMem, _, rfl⟩ | ⟨bucket, inBuckets, rfl⟩
    · simp [alone, single]
    · obtain ⟨entry, entryMem, isMp3, same⟩ := mp3_of_bucket inBuckets
      apply (wrap_i64_eq_iff _).mpr
      rw [((mem_mp3_buckets bucket).mp inBuckets).1, ← same]
      exact fits entry entryMem isMp3

omit listing in
theorem group_mtime {group : AudiobookGroup} (member : group ∈ groupIntoBooks entries) :
    (∀ part ∈ group.parts, part.mtimeEpoch ≤ group.maxMtimeEpoch) ∧
      ∃ part ∈ group.parts, part.mtimeEpoch = group.maxMtimeEpoch := by
  rcases (mem_groups group).mp member with ⟨entry, entryMem, _, rfl⟩ | ⟨bucket, inBuckets, rfl⟩
  · simp [alone, single]
  · exact directory_mtime ((mem_mp3_buckets bucket).mp inBuckets).2

omit listing in
theorem group_named {group : AudiobookGroup} (member : group ∈ groupIntoBooks entries)
    (hasKey : group.scanKey ≠ "") : group.isReal = true ∧ group.groupPath = group.scanKey := by
  rcases (mem_groups group).mp member with ⟨entry, entryMem, _, rfl⟩ | ⟨bucket, inBuckets, rfl⟩
  · have isReal : entry.scanKey ≠ "" := fun noKey => hasKey (if_pos noKey)
    exact ⟨(alone_real entry).mpr isReal, (alone_key isReal).symm⟩
  · exact ⟨directory_real inBuckets, rfl⟩

omit listing in
theorem groups_one_path
    (apart : (((groupIntoBooks entries).filter (·.isReal)).map (·.scanKey)).Nodup)
    {db : List IndexedRow} (rows : KeyedRows db) :
    OnePath (projectGroupsToStat (groupIntoBooks entries)) db where
  keys := by
    unfold projectGroupsToStat
    rw [List.Nodup, List.pairwise_map, List.pairwise_filter, List.pairwise_map,
      List.pairwise_filter]
    rw [List.Nodup, List.pairwise_map, List.pairwise_filter] at apart
    apply apart.imp_of_mem
    intro left right leftMem rightMem differ leftKey rightKey _ _
    exact differ (group_named leftMem (of_decide_eq_true leftKey)).1
      (group_named rightMem (of_decide_eq_true rightKey)).1
  named entry member hasKey := by
    obtain ⟨group, inGroups, rfl⟩ := List.mem_map.mp member
    exact (group_named (List.mem_filter.mp inGroups).1 hasKey).2
  rowKeys := rows.keys
  uuids := rows.uuids

theorem group_of_real
    (keyed : ∀ group ∈ groupIntoBooks entries, group.isReal = true → group.scanKey ≠ "")
    {entry : AudiobookStatEntry} (member : entry ∈ entries) (hasKey : entry.scanKey ≠ "") :
    ∃ group ∈ groupIntoBooks entries, entry ∈ group.parts ∧ group.scanKey ≠ "" := by
  have inParts := (groups_parts (.of_map _ listing.names)).mem_iff.mpr member
  obtain ⟨group, inGroups, inGroup⟩ := List.mem_flatMap.mp inParts
  refine ⟨group, inGroups, inGroup, keyed group inGroups ?_⟩
  rcases (mem_groups group).mp inGroups with ⟨other, _, _, rfl⟩ | ⟨bucket, inBuckets, rfl⟩
  · rw [show entry = other from List.mem_singleton.mp inGroup] at hasKey
    exact (alone_real other).mpr hasKey
  · exact directory_real inBuckets

end Laws

/-- Grouping loses no file exactly when every directory of MP3s has a name of its own. -/
theorem loses_no_file_iff (entries : List AudiobookStatEntry) (listing : StatListing entries) :
    LosesNoFile entries (groupIntoBooks entries) ↔ DirectoriesApart entries := by
  constructor
  · intro sound entry member isMp3
    exact ⟨(keyed_iff listing).mp sound.keyed entry member isMp3,
      (apart_iff listing).mp sound.apart entry member isMp3,
      size_iff.mp sound.size entry member isMp3⟩
  · intro directories
    have keyed := (keyed_iff listing).mpr fun entry member isMp3 =>
      (directories entry member isMp3).1
    have apart := (apart_iff listing).mpr fun entry member isMp3 =>
      (directories entry member isMp3).2.1
    refine ⟨groups_parts (.of_map _ listing.names), keyed, apart, ?_, ?_, ?_⟩
    · exact size_iff.mpr fun entry member isMp3 => (directories entry member isMp3).2.2
    · exact fun group member => group_mtime member
    · intro order db libraryRoot trustworthy rows entry member hasKey
      obtain ⟨group, inGroups, inGroup, groupKey⟩ := group_of_real listing keyed member hasKey
      have one := groups_one_path apart rows
      have partitions : Partitions (diffLibraryBy order (projectGroupsToStat
          (groupIntoBooks entries)) db libraryRoot trustworthy) _ db trustworthy :=
        contents_partition one (diff_contents one)
      refine ⟨group, inGroups, inGroup, partitions.files group.toStat ?_ groupKey⟩
      exact List.mem_map_of_mem (List.mem_filter.mpr ⟨inGroups, decide_eq_true groupKey⟩)

section Examples

def shelved : List AudiobookStatEntry :=
  [⟨"a/x/01.mp3", "a/x/01.mp3", 5, 7, none⟩, ⟨"a/x.m4b", "a/x.m4b", 6, 8, none⟩,
    ⟨"locked", "", 0, 0, some "permission denied"⟩, ⟨"a/x/02.mp3", "a/x/02.mp3", 9, 3, none⟩]

theorem shelved_loses_no_file : LosesNoFile shelved (groupIntoBooks shelved) :=
  (loses_no_file_iff shelved ⟨by decide +kernel, by decide +kernel⟩).mpr (by
    unfold DirectoriesApart FitsI64
    decide +kernel)

/-- An MP3 at the root of the library has the key of a placeholder. -/
theorem root_mp3_lost : StatListing [⟨"01.mp3", "01.mp3", 5, 7, none⟩] ∧
    projectGroupsToStat (groupIntoBooks [⟨"01.mp3", "01.mp3", 5, 7, none⟩]) = [] ∧
    ¬LosesNoFile [⟨"01.mp3", "01.mp3", 5, 7, none⟩]
      (groupIntoBooks [⟨"01.mp3", "01.mp3", 5, 7, none⟩]) := by
  refine ⟨⟨by decide +kernel, by decide +kernel⟩, by decide +kernel, fun sound => ?_⟩
  exact absurd sound.keyed (by decide +kernel)

end Examples

end Omnibus.Audiobooks
