import Mathlib.Data.List.Sort
import Mathlib.Data.Prod.Lex

/-!
# Paged change feeds

A reader of a table whose entries carry keys from a linear order asks for the entries past a
position, in key order and at most `limit` of them. A page that was not cut holds every entry
past the position; a cut one holds those up to its last entry's key, and the reader goes on
from there. An entry past the old position is then in the page or past the new one.
-/

namespace Omnibus.Library.Feed

variable {Entry Key : Type*} [LinearOrder Key] (key : Entry → Key)

def page (limit : Nat) (since : Key) (entries : List Entry) : List Entry :=
  ((entries.filter fun entry => since < key entry).insertionSort
    fun left right => key left ≤ key right).take limit

/-- Whether the limit may have kept entries out of the page. -/
def cut (limit : Nat) (read : List Entry) : Bool := limit ≤ read.length

/-- Where the reader goes on from: the last entry of a cut page. -/
def position (limit : Nat) (fallback : Key) (read : List Entry) : Key :=
  if cut limit read then (read.getLast?.map key).getD fallback else fallback

variable {limit : Nat} {since fallback : Key} {entries : List Entry} {entry : Entry}

theorem mem_page (member : entry ∈ page key limit since entries) :
    entry ∈ entries ∧ since < key entry := by
  have sorted := (List.mem_insertionSort _).mp (List.mem_of_mem_take member)
  simpa using sorted

theorem mem_page_of_not_cut (whole : cut limit (page key limit since entries) = false)
    (member : entry ∈ entries) (past : since < key entry) :
    entry ∈ page key limit since entries := by
  unfold page at whole ⊢
  set sorted := (entries.filter fun entry => since < key entry).insertionSort
    fun left right => key left ≤ key right with isSorted
  have short : sorted.length ≤ limit := by
    simp only [cut, List.length_take, decide_eq_false_iff_not] at whole
    omega
  rw [List.take_of_length_le short, isSorted, List.mem_insertionSort]
  simpa using ⟨member, past⟩

theorem mem_page_or_past (fallback : Key) (positive : 0 < limit)
    (apart : ∀ left ∈ entries, ∀ right ∈ entries, key left = key right → left = right)
    (member : entry ∈ entries) (past : since < key entry) :
    entry ∈ page key limit since entries ∨
      position key limit fallback (page key limit since entries) < key entry := by
  cases whole : cut limit (page key limit since entries) with
  | false => exact .inl (mem_page_of_not_cut key whole member past)
  | true =>
      by_cases here : entry ∈ page key limit since entries
      · exact .inl here
      refine .inr ?_
      have nonempty : page key limit since entries ≠ [] := by
        intro empty
        rw [empty] at whole
        simp [cut] at whole
        omega
      rw [position, whole, if_pos rfl, List.getLast?_eq_some_getLast nonempty]
      set last := (page key limit since entries).getLast nonempty with isLast
      have lastMem : last ∈ page key limit since entries := List.getLast_mem nonempty
      refine lt_of_le_of_ne ?_ fun same => ?_
      · unfold page at here lastMem
        set sorted := (entries.filter fun entry => since < key entry).insertionSort
          fun left right => key left ≤ key right with isSorted
        have ordered : sorted.Pairwise fun left right => key left ≤ key right :=
          List.pairwise_insertionSort (fun left right => key left ≤ key right) _
        rw [← List.take_append_drop limit sorted, List.pairwise_append] at ordered
        have inSorted : entry ∈ sorted := by
          rw [isSorted, List.mem_insertionSort]
          simpa using ⟨member, past⟩
        rw [← List.take_append_drop limit sorted, List.mem_append] at inSorted
        exact ordered.2.2 last lastMem entry (inSorted.resolve_left here)
      · exact here (apart last (mem_page key lastMem).1 entry member same ▸ lastMem)

omit [LinearOrder Key] in
/-- The new position is the key of an entry of the page when it is not the fallback. -/
theorem position_cases (limit : Nat) (fallback : Key) (read : List Entry) :
    position key limit fallback read = fallback ∨
      ∃ last ∈ read, position key limit fallback read = key last := by
  unfold position
  split
  · cases last : read.getLast? with
    | none => exact .inl rfl
    | some entry => exact .inr ⟨entry, List.mem_of_getLast? last, rfl⟩
  · exact .inl rfl

omit [LinearOrder Key] in
theorem position_of_not_cut {read : List Entry} (whole : cut limit read = false) :
    position key limit fallback read = fallback := by
  simp [position, whole]

end Omnibus.Library.Feed
