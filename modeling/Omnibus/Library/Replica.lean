import Mathlib.Data.List.Nodup
import Mathlib.Logic.Function.Basic

/-!
# A store kept by a log

A store of optional values under keys, and a log of items that each change the value of one
key. A batch that names a key once changes it by its one item.
-/

namespace Omnibus.Library.Replica

variable {Item Key Value : Type*} [DecidableEq Key] (key : Item → Key)
  (put : Item → Option Value → Option Value)

def apply (store : Key → Option Value) (items : List Item) : Key → Option Value :=
  items.foldl (fun store item =>
    Function.update store (key item) (put item (store (key item)))) store

variable {store : Key → Option Value} {items : List Item}

theorem apply_append (store : Key → Option Value) (first second : List Item) :
    apply key put store (first ++ second) =
      apply key put (apply key put store first) second := by
  rw [apply, List.foldl_append]
  rfl

theorem apply_of_not_mem {name : Key} (absent : name ∉ items.map key) :
    apply key put store items name = store name := by
  induction items generalizing store with
  | nil => rfl
  | cons item rest induction =>
      rw [List.map_cons, List.mem_cons, not_or] at absent
      change apply key put (Function.update store (key item) _) rest name = store name
      rw [induction absent.2, Function.update_of_ne absent.1]

theorem apply_of_mem (once : (items.map key).Nodup) {item : Item} (member : item ∈ items) :
    apply key put store items (key item) = put item (store (key item)) := by
  induction items generalizing store with
  | nil => cases member
  | cons first rest induction =>
      rw [List.map_cons] at once
      obtain ⟨onlyHere, later⟩ := List.nodup_cons.mp once
      change apply key put (Function.update store (key first) _) rest (key item) = _
      rcases List.mem_cons.mp member with rfl | inRest
      · rw [apply_of_not_mem key put onlyHere, Function.update_self]
      · have apart : key item ≠ key first := fun same =>
          onlyHere (same ▸ List.mem_map_of_mem inRest)
        rw [induction later inRest, Function.update_of_ne apart]

end Omnibus.Library.Replica
