import Mathlib.Data.List.Dedup
import Mathlib.Data.List.Sort
import Omnibus.Annotations.Store
import Omnibus.Audiobooks.BoxWalk
import Omnibus.Library.Codes

/-!
# The fingerprint of what a Kobo is served

`kobo/annotations.rs`: a book's servable annotations are hashed in the order of their client ids,
each field behind its length, and `checkforchanges` reports a book whose fingerprint is not the
one the device last acknowledged. SHA-256 is a parameter.
-/

namespace Omnibus.Annotations

open Omnibus.Audiobooks (Bytes beBytes beNat be_nat_bytes be_bytes_length)
open Omnibus.Library.Codes

def asBytes (text : String) : Bytes := text.toByteArray.data.toList

/-- A text in memory, of at most `isize::MAX` bytes. -/
structure Stored where
  text : String
  fits : (asBytes text).length < 2 ^ 63
deriving DecidableEq

def HighlightColor.asStr : HighlightColor → String
  | amber => "amber"
  | green => "green"
  | blue => "blue"
  | rose => "rose"
  | violet => "violet"

structure ServedKoboAnnotation where
  clientId : Stored
  color : HighlightColor
  text : Option Stored
  note : Option Stored
  koboLocation : Stored
  updatedAt : Int
deriving DecidableEq

def fieldBytes : Option Bytes → Bytes
  | some value => beBytes 8 value.length ++ value
  | none => beBytes 8 (2 ^ 64 - 1)

def hashedFields (row : ServedKoboAnnotation) : List (Option Bytes) :=
  [some (asBytes row.clientId.text), some (asBytes row.color.asStr),
    row.note.map fun note => asBytes note.text, row.text.map fun text => asBytes text.text,
    some (asBytes row.koboLocation.text)]

def IdOrder (left right : ServedKoboAnnotation) : Prop := left.clientId.text ≤ right.clientId.text

instance : DecidableRel IdOrder := fun _ _ => inferInstanceAs (Decidable (_ ≤ _))

/-- What `fingerprint` feeds to the hash. -/
def hashed (rows : List ServedKoboAnnotation) : Bytes :=
  asBytes "omnibus-kobo-annotations-v2" ++
    (rows.insertionSort IdOrder).flatMap fun row => (hashedFields row).flatMap fieldBytes

def hexByte (byte : UInt8) : List Char :=
  [Nat.digitChar (byte.toNat / 16), Nat.digitChar (byte.toNat % 16)]

def fingerprint (sha256 : Bytes → Bytes) (rows : List ServedKoboAnnotation) : String :=
  String.ofList ((sha256 (hashed rows)).flatMap hexByte)

/-- A row of `kobo_annotations_sync`. -/
structure SyncRow where
  deviceId : Int
  bookUuid : Uuid
  adoptedAt : Option Int
  ackedFingerprint : Option String

/-- The device's entry for a book, whether it is adopted and what it acknowledged. A later row
replaces an earlier one. -/
def syncState (sync : List SyncRow) (deviceId : Int) (uuid : Uuid) :
    Option (Bool × Option String) :=
  ((sync.filter fun row => row.deviceId = deviceId).reverse.find? fun row =>
    row.bookUuid = uuid).map fun row => (row.adoptedAt.isSome, row.ackedFingerprint)

/-- `changed_book_uuids`, of the rows that `served_kobo_annotations_batch` found for each book. -/
def changedBookUuids (sha256 : Bytes → Bytes) (sync : List SyncRow) (deviceId : Int)
    (annotated : List Uuid) (served : Uuid → List ServedKoboAnnotation) : List Uuid :=
  let held := (sync.filter fun row => row.deviceId = deviceId).map (·.bookUuid)
  let candidates := (annotated ++ held).dedup.insertionSort (· ≤ ·)
  candidates.filter fun uuid =>
    let state := (syncState sync deviceId uuid).getD (false, none)
    if !state.1 && (served uuid).isEmpty then false
    else state.2 ≠ some (fingerprint sha256 (served uuid))

def ServedKoboAnnotation.values (row : ServedKoboAnnotation) :
    Stored × HighlightColor × Option Stored × Option Stored × Stored :=
  (row.clientId, row.color, row.note, row.text, row.koboLocation)

def SameSet (rows others : List ServedKoboAnnotation) : Prop :=
  ∀ values, values ∈ rows.map (·.values) ↔ values ∈ others.map (·.values)

def DistinctIds (rows : List ServedKoboAnnotation) : Prop := (rows.map (·.clientId)).Nodup

instance (rows : List ServedKoboAnnotation) : Decidable (DistinctIds rows) :=
  inferInstanceAs (Decidable (List.Nodup _))

section Injective

theorem as_bytes_injective : Function.Injective asBytes := by
  intro left right same
  apply String.toByteArray_inj.mp
  exact ByteArray.ext (Array.ext' same)

theorem stored_ext {left right : Stored} (same : asBytes left.text = asBytes right.text) :
    left = right := by
  cases left
  cases right
  simpa using as_bytes_injective same

theorem as_str_injective : Function.Injective HighlightColor.asStr := by
  intro left right same
  cases left <;> cases right <;> first | rfl | exact absurd same (by decide)

theorem field_unambiguous : Unambiguous fun field : { field : Option Bytes //
    ∀ value ∈ field, value.length < 2 ^ 63 } => fieldBytes field.1 := by
  have length_eq {left right : Nat} (leftFits : left < 256 ^ 8) (rightFits : right < 256 ^ 8)
      (same : beBytes 8 left = beBytes 8 right) : left = right := by
    rw [← be_nat_bytes leftFits, same, be_nat_bytes rightFits]
  intro ⟨x, xFits⟩ ⟨y, yFits⟩ left right same
  cases x with
  | none =>
      cases y with
      | none =>
          have parts := List.append_inj same (by simp [fieldBytes])
          exact ⟨rfl, parts.2⟩
      | some y =>
          have yLength := yFits y rfl
          simp only [fieldBytes, List.append_assoc] at same
          have parts := List.append_inj same (by simp)
          have := length_eq (by norm_num) (by omega) parts.1
          omega
  | some x =>
      have xLength := xFits x rfl
      cases y with
      | none =>
          simp only [fieldBytes, List.append_assoc] at same
          have parts := List.append_inj same (by simp)
          have := length_eq (by omega) (by norm_num) parts.1
          omega
      | some y =>
          have yLength := yFits y rfl
          simp only [fieldBytes, List.append_assoc] at same
          have parts := List.append_inj same (by simp)
          have sameLength := length_eq (by omega) (by omega) parts.1
          obtain ⟨rfl, rest⟩ := List.append_inj parts.2 sameLength
          exact ⟨rfl, rest⟩

/-- A field, no longer than a text in memory. -/
abbrev Field : Type := { field : Option Bytes // ∀ value ∈ field, value.length < 2 ^ 63 }

def Stored.field (stored : Stored) : Field :=
  ⟨some (asBytes stored.text), fun value isValue => by
    obtain rfl := Option.some.inj isValue
    exact stored.fits⟩

def optionalField (stored : Option Stored) : Field :=
  ⟨stored.map fun stored => asBytes stored.text, fun value isValue => by
    obtain ⟨text, _, rfl⟩ := Option.map_eq_some_iff.mp isValue
    exact text.fits⟩

def colorField (color : HighlightColor) : Field :=
  ⟨some (asBytes color.asStr), fun value isValue => by
    obtain rfl := Option.some.inj isValue
    cases color <;> decide⟩

abbrev Values : Type := Stored × HighlightColor × Option Stored × Option Stored × Stored

def fieldsOf (values : Values) : List Field :=
  [values.1.field, colorField values.2.1, optionalField values.2.2.1,
    optionalField values.2.2.2.1, values.2.2.2.2.field]

theorem stored_field_injective {left right : Stored} (same : left.field = right.field) :
    left = right :=
  stored_ext (Option.some.inj (congrArg Subtype.val same))

theorem optional_field_injective {left right : Option Stored}
    (same : optionalField left = optionalField right) : left = right := by
  have injective : Function.Injective fun stored : Stored => asBytes stored.text :=
    fun _ _ => stored_ext
  exact Option.map_injective injective (congrArg Subtype.val same)

theorem color_field_injective {left right : HighlightColor}
    (same : colorField left = colorField right) : left = right :=
  as_str_injective (as_bytes_injective (Option.some.inj (congrArg Subtype.val same)))

theorem values_unambiguous : Unambiguous fun values : Values =>
    (fieldsOf values).flatMap fun field => fieldBytes field.1 := by
  intro x y left right same
  obtain ⟨sameFields, rest⟩ := field_unambiguous.words (fieldsOf x) (fieldsOf y) rfl left right same
  unfold fieldsOf at sameFields
  simp only [List.cons.injEq, and_true] at sameFields
  obtain ⟨clientId, color, note, text, location⟩ := sameFields
  refine ⟨?_, rest⟩
  exact Prod.ext (stored_field_injective clientId) (Prod.ext (color_field_injective color)
    (Prod.ext (optional_field_injective note) (Prod.ext (optional_field_injective text)
      (stored_field_injective location))))

theorem values_ne_nil (values : Values) :
    ((fieldsOf values).flatMap fun field => fieldBytes field.1) ≠ [] := by
  intro empty
  have lengths := congrArg List.length empty
  simp [fieldsOf, Stored.field, fieldBytes] at lengths

end Injective

section Sorted

def ValuesOrder (left right : Values) : Prop := left.1.text ≤ right.1.text

instance : DecidableRel ValuesOrder := fun _ _ => inferInstanceAs (Decidable (_ ≤ _))

instance : Std.Total ValuesOrder := ⟨fun left right => le_total left.1.text right.1.text⟩

instance : IsTrans Values ValuesOrder := ⟨fun _ _ _ => le_trans⟩

variable {rows others : List ServedKoboAnnotation}

theorem hashed_values (rows : List ServedKoboAnnotation) :
    hashed rows = asBytes "omnibus-kobo-annotations-v2" ++
      ((rows.map (·.values)).insertionSort ValuesOrder).flatMap fun values =>
        (fieldsOf values).flatMap fun field => fieldBytes field.1 := by
  have sorted : (rows.map (·.values)).insertionSort ValuesOrder =
      (rows.insertionSort IdOrder).map (·.values) :=
    (List.map_insertionSort IdOrder ValuesOrder ServedKoboAnnotation.values rows
      fun _ _ _ _ => Iff.rfl).symm
  rw [sorted, List.flatMap_map, hashed]
  rfl

theorem values_perm (rowIds : DistinctIds rows) (otherIds : DistinctIds others) :
    SameSet rows others ↔ (rows.map (·.values)).Perm (others.map (·.values)) := by
  have nodup {rows : List ServedKoboAnnotation} (ids : DistinctIds rows) :
      (rows.map (·.values)).Nodup := by
    apply List.Nodup.of_map Prod.fst
    rw [List.map_map]
    exact ids
  exact (List.perm_ext_iff_of_nodup (nodup rowIds) (nodup otherIds)).symm

theorem sorted_of_perm (rowIds : DistinctIds rows)
    (perm : (rows.map (·.values)).Perm (others.map (·.values))) :
    (rows.map (·.values)).insertionSort ValuesOrder =
      (others.map (·.values)).insertionSort ValuesOrder := by
  have sortedPerm := (List.perm_insertionSort ValuesOrder _).trans
    (perm.trans (List.perm_insertionSort ValuesOrder _).symm)
  refine sortedPerm.eq_of_pairwise ?_ (List.pairwise_insertionSort _ _)
    (List.pairwise_insertionSort _ _)
  intro x y xMem yMem before after
  have xRow := (List.perm_insertionSort ValuesOrder _).mem_iff.mp xMem
  have yRow := perm.mem_iff.mpr ((List.perm_insertionSort ValuesOrder _).mem_iff.mp yMem)
  have ids : ((rows.map (·.values)).map Prod.fst).Nodup := by
    rw [List.map_map]
    exact rowIds
  have sameText : x.1.text = y.1.text := le_antisymm before after
  exact List.inj_on_of_nodup_map ids xRow yRow (stored_ext (congrArg asBytes sameText))

theorem hashed_iff (rowIds : DistinctIds rows) (otherIds : DistinctIds others) :
    hashed rows = hashed others ↔ SameSet rows others := by
  rw [values_perm rowIds otherIds]
  constructor
  · intro same
    rw [hashed_values, hashed_values] at same
    have sorted := values_unambiguous.run values_ne_nil _ _ (List.append_cancel_left same)
    exact (List.perm_insertionSort ValuesOrder _).symm.trans
      (sorted ▸ List.perm_insertionSort ValuesOrder _)
  · intro perm
    rw [hashed_values, hashed_values, sorted_of_perm rowIds perm]

end Sorted

section Reported

theorem hex_unambiguous : Unambiguous hexByte := by
  have digits : ∀ x y : Fin 16, Nat.digitChar x = Nat.digitChar y → x = y := by decide
  have digit {x y : Nat} (xSmall : x < 16) (ySmall : y < 16)
      (same : Nat.digitChar x = Nat.digitChar y) : x = y :=
    congrArg Fin.val (digits ⟨x, xSmall⟩ ⟨y, ySmall⟩ same)
  intro x y left right same
  simp only [hexByte, List.cons_append, List.nil_append, List.cons.injEq] at same
  obtain ⟨high, low, rest⟩ := same
  have xSmall := x.toNat_lt
  have ySmall := y.toNat_lt
  have sameHigh := digit (by omega) (by omega) high
  have sameLow := digit (by omega) (by omega) low
  exact ⟨UInt8.toNat_inj.mp (by omega), rest⟩

theorem fingerprint_inj (sha256 : Bytes → Bytes) (rows others : List ServedKoboAnnotation) :
    fingerprint sha256 rows = fingerprint sha256 others ↔
      sha256 (hashed rows) = sha256 (hashed others) := by
  constructor
  · intro same
    exact hex_unambiguous.run (fun _ => List.cons_ne_nil _ _) _ _ (String.ofList_injective same)
  · intro same
    rw [fingerprint, fingerprint, same]

theorem mem_candidates {sync : List SyncRow} {deviceId : Int} {uuid : Uuid}
    {state : Bool × Option String} (held : syncState sync deviceId uuid = some state)
    (annotated : List Uuid) : uuid ∈ (annotated ++
      (sync.filter fun row => row.deviceId = deviceId).map (·.bookUuid)).dedup.insertionSort
        (· ≤ ·) := by
  obtain ⟨row, found, _⟩ := Option.map_eq_some_iff.mp held
  have isBook : row.bookUuid = uuid := by simpa using List.find?_some found
  have rowMem := List.mem_reverse.mp (List.mem_of_find?_eq_some found)
  rw [List.mem_insertionSort, List.mem_dedup, List.mem_append]
  exact .inr (isBook ▸ List.mem_map_of_mem rowMem)

/-- The bytes hashed are those of the set of the rows' values. So, without a collision between the
two, a book that an adopted device holds goes unreported exactly when what would be served is what
it last acknowledged. -/
theorem served_set_identified {rows : List ServedKoboAnnotation} (distinct : DistinctIds rows) :
    (∀ others, DistinctIds others → (hashed rows = hashed others ↔ SameSet rows others)) ∧
    ∀ (sha256 : Bytes → Bytes) (sync : List SyncRow) (deviceId : Int) (annotated : List Uuid)
      (served : Uuid → List ServedKoboAnnotation) (uuid : Uuid)
      (acked : Option (List ServedKoboAnnotation)), served uuid = rows →
      syncState sync deviceId uuid = some (true, acked.map (fingerprint sha256)) →
      (∀ last ∈ acked, DistinctIds last ∧
        (sha256 (hashed last) = sha256 (hashed rows) → hashed last = hashed rows)) →
      (uuid ∉ changedBookUuids sha256 sync deviceId annotated served ↔
        ∃ last ∈ acked, SameSet last rows) := by
  refine ⟨fun others otherIds => hashed_iff distinct otherIds, ?_⟩
  intro sha256 sync deviceId annotated served uuid acked isServed adopted collisionFree
  unfold changedBookUuids
  simp only [List.mem_filter, mem_candidates adopted annotated, true_and, adopted,
    Option.getD_some, Bool.not_true, Bool.false_and, Bool.false_eq_true, if_false, isServed,
    decide_eq_true_eq, ne_eq, not_not]
  constructor
  · intro same
    obtain ⟨last, isLast, sameFingerprint⟩ := Option.map_eq_some_iff.mp same
    obtain ⟨lastIds, injective⟩ := collisionFree last isLast
    have sameHash := injective ((fingerprint_inj sha256 last rows).mp sameFingerprint)
    exact ⟨last, isLast, (hashed_iff lastIds distinct).mp sameHash⟩
  · intro ⟨last, isLast, sameSet⟩
    have sameHash := (hashed_iff (collisionFree last isLast).1 distinct).mpr sameSet
    obtain rfl := Option.mem_def.mp isLast
    rw [Option.map_some, (fingerprint_inj sha256 last rows).mpr (congrArg sha256 sameHash)]

def roseRow : ServedKoboAnnotation :=
  ⟨⟨"a", by decide⟩, .rose, none, none, ⟨"k", by decide⟩, 5⟩

def notedRow : ServedKoboAnnotation :=
  ⟨⟨"b", by decide⟩, .amber, none, some ⟨"", by decide⟩, ⟨"k", by decide⟩, 7⟩

def twoRowsDigest : Bytes :=
  [17, 226, 178, 145, 33, 210, 9, 1, 55, 168, 212, 58, 2, 61, 142, 87, 255, 209, 51, 27, 184, 134,
    145, 231, 233, 27, 223, 92, 187, 159, 65, 239]

theorem served_set_identified_reordered :
    "u" ∉ changedBookUuids
      (fun bytes => if bytes = hashed [notedRow, roseRow] then twoRowsDigest else [])
      [⟨1, "u", some 0, some (fingerprint
        (fun bytes => if bytes = hashed [notedRow, roseRow] then twoRowsDigest else [])
        [roseRow, notedRow])⟩] 1 [] fun _ => [notedRow, roseRow] := by
  have distinct : DistinctIds [notedRow, roseRow] ∧ DistinctIds [roseRow, notedRow] := by decide
  have sameSet : SameSet [roseRow, notedRow] [notedRow, roseRow] := fun _ =>
    (List.Perm.swap _ _ _).mem_iff
  obtain ⟨identified, unreported⟩ := served_set_identified distinct.1
  have sameHash := ((identified _ distinct.2).mpr fun values => (sameSet values).symm).symm
  exact (unreported _ _ 1 [] _ "u" (some [roseRow, notedRow]) rfl rfl fun last isLast => by
    obtain rfl := Option.some.inj isLast
    exact ⟨distinct.2, fun _ => sameHash⟩).mpr ⟨_, rfl, sameSet⟩

end Reported

end Omnibus.Annotations
