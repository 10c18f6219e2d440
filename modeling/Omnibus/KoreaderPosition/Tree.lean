import Omnibus.KoboPosition.Addresses

/-!
# The element tree of a document

What the walk's elements and clusters say of each other: a parent opens before its children, one
element has none, and the text nodes of one element carry the same steps.
-/

namespace Omnibus.KoreaderPosition

open Omnibus.Library.Strings
open Omnibus.KoboPosition

/-- Each open element's steps, innermost first; the root carries none. -/
def Tabled (table : Nat → List Nat) : List Nat → List Nat → Prop
  | [], _ => True
  | idx :: outer, steps => table idx = steps ∧ Tabled table outer steps.dropLast

theorem tabled_update (table : Nat → List Nat) (fresh : Nat) (added : List Nat)
    (opened steps : List Nat) (older : ∀ idx ∈ opened, idx < fresh)
    (tabled : Tabled table opened steps) :
    Tabled (Function.update table fresh added) opened steps := by
  induction opened generalizing steps with
  | nil => trivial
  | cons idx outer induction =>
      have apart : idx ≠ fresh := Nat.ne_of_lt (older idx (List.mem_cons_self ..))
      constructor
      · rw [Function.update_of_ne apart]
        exact tabled.1
      · exact induction _ (fun other member => older other (List.mem_cons_of_mem _ member)) tabled.2

/-- A parent opens before its children, and only the first element has none. -/
structure Treed (elements : List Element) : Prop where
  earlier : ∀ (idx : Nat) (element : Element), elements[idx]? = some element →
    ∀ parent ∈ element.parent, parent < idx
  rooted : ∀ (idx : Nat) (element : Element), elements[idx]? = some element →
    element.parent = none → idx = 0

/-- The text nodes stand in elements, each under the steps its element has. -/
def Stepped (table : Nat → List Nat) (b : Builder) : Prop :=
  ∀ cluster ∈ b.clusters, cluster.parent < b.elements.length ∧
    cluster.elementSteps = table cluster.parent

structure Grown (b : Builder) (r : Reading) : Prop where
  tiled : Tiled b r
  shaped : Shaped b r
  depth : b.open.length = r.stack.length
  opened : ∀ idx ∈ b.open, idx < b.elements.length
  bare : r.roots = 0 → r.stack = [] ∧ b.elements = []
  treed : r.roots ≤ 1 → Treed b.elements
  tabled : ∃ table, Tabled table b.open b.steps ∧ Stepped table b

theorem Builder.opened_tree (b : Builder) :
    b.opened.open = b.open ∧ b.opened.elements = b.elements := by
  cases openCluster : b.openCluster with
  | some i =>
      rw [Builder.opened_of_some b i openCluster]
      exact ⟨rfl, rfl⟩
  | none =>
      rw [Builder.opened_of_none b openCluster]
      exact ⟨rfl, rfl⟩

theorem placed_last {list : List Element} {last element : Element} {idx : Nat}
    (found : (list ++ [last])[idx]? = some element) :
    list[idx]? = some element ∨ (idx = list.length ∧ element = last) := by
  rw [List.getElem?_append] at found
  split at found
  · exact Or.inl found
  · right
    obtain ⟨inside, isLast⟩ := List.getElem?_eq_some_iff.mp found
    rw [List.length_singleton] at inside
    rw [List.getElem_singleton] at isLast
    exact ⟨by omega, isLast.symm⟩

namespace Grown

variable {b : Builder} {r : Reading}

theorem treed_start (grown : Grown b r) (qname : Text) (localName : Text) (id : Option Text)
    (single : (r.start localName id).roots ≤ 1) :
    Treed (b.elements ++ [{ parent := b.open.head?, «local» := qname }]) := by
  have rootsSame : (r.start localName id).roots = if r.stack = [] then r.roots + 1 else r.roots :=
    rfl
  rw [rootsSame] at single
  have treed := grown.treed (by split_ifs at single <;> omega)
  -- A second element without a parent would open at an empty stack, a second root.
  have outermost : b.open.head? = none → b.elements = [] := by
    intro none
    have empty : r.stack = [] := by
      apply List.eq_nil_of_length_eq_zero
      rw [← grown.depth, List.head?_eq_none_iff.mp none, List.length_nil]
    rw [if_pos empty] at single
    exact (grown.bare (by omega)).2
  constructor
  · intro idx element found parent child
    rcases placed_last found with before | ⟨rfl, rfl⟩
    · exact treed.earlier idx element before parent child
    · exact grown.opened parent (List.mem_of_mem_head? child)
  · intro idx element found none
    rcases placed_last found with before | ⟨rfl, rfl⟩
    · exact treed.rooted idx element before none
    · rw [outermost none, List.length_nil]

theorem stepped_opened (grown : Grown b r) (inBody : b.bodyDepth ≠ 0) :
    ∃ table, Tabled table b.opened.open b.opened.steps ∧ Stepped table b.opened := by
  obtain ⟨table, tabled, stepped⟩ := grown.tabled
  refine ⟨table, ?_⟩
  cases openCluster : b.openCluster with
  | some i =>
      rw [Builder.opened_of_some b i openCluster]
      exact ⟨tabled, stepped⟩
  | none =>
      rw [Builder.opened_of_none b openCluster]
      refine ⟨tabled, ?_⟩
      intro cluster member
      rcases List.mem_append.mp member with before | last
      · exact stepped cluster before
      · obtain rfl := List.mem_singleton.mp last
        have depth := grown.shaped.bodyDepth
        rw [← grown.depth] at depth
        cases shape : b.open with
        | nil =>
            rw [shape, List.length_nil] at depth
            omega
        | cons idx outer =>
            have inner := grown.opened idx (by rw [shape]; exact List.mem_cons_self ..)
            rw [shape] at tabled
            constructor
            · simpa [Builder.freshCluster, shape] using inner
            · simpa [Builder.freshCluster, shape] using tabled.1.symm

theorem congr {b' : Builder} {r' : Reading} (grown : Grown b r) (tiled : Tiled b' r')
    (shaped : Shaped b' r') (stack : r'.stack = r.stack) (roots : r'.roots = r.roots)
    (opened : b'.open = b.open) (elements : b'.elements = b.elements)
    (tabled : ∃ table, Tabled table b'.open b'.steps ∧ Stepped table b') : Grown b' r' where
  tiled := tiled
  shaped := shaped
  depth := by rw [opened, stack, grown.depth]
  opened := by rw [opened, elements]; exact grown.opened
  bare := by rw [roots, stack, elements]; exact grown.bare
  treed := by rw [roots, elements]; exact grown.treed
  tabled := tabled

theorem stepped_of_places {b' : Builder} (table : Nat → List Nat) (stepped : Stepped table b)
    (elements : b'.elements = b.elements)
    (places : b'.clusters.map (fun cluster => (cluster.parent, cluster.elementSteps)) =
      b.clusters.map fun cluster => (cluster.parent, cluster.elementSteps)) :
    Stepped table b' := by
  intro cluster member
  have listed : (cluster.parent, cluster.elementSteps) ∈
      b.clusters.map fun cluster => (cluster.parent, cluster.elementSteps) := by
    rw [← places]
    exact List.mem_map_of_mem member
  obtain ⟨other, found, same⟩ := List.mem_map.mp listed
  obtain ⟨parent, steps⟩ := Prod.mk.inj same
  rw [← parent, ← steps, elements]
  exact stepped other found

theorem keeps : Keeps Grown where
  start b r localName qname id grown := by
    have both := Shaped.keeps.start b r localName qname id ⟨grown.tiled, grown.shaped⟩
    refine ⟨both.1, both.2, ?_, ?_, ?_, ?_, ?_⟩
    · rw [Builder.element_start_eq]
      simp [Reading.start, grown.depth]
    · rw [Builder.element_start_eq]
      intro idx member
      rw [List.length_append]
      rcases List.mem_cons.mp member with rfl | before
      · exact Nat.lt_succ_self _
      · exact Nat.lt_add_right _ (grown.opened idx before)
    · intro zero
      have before : r.stack ≠ [] ∧ r.roots = 0 := by
        simp only [Reading.start] at zero
        split_ifs at zero with first
        exact ⟨first, zero⟩
      exact absurd (grown.bare before.2).1 before.1
    · rw [Builder.element_start_eq]
      exact grown.treed_start qname localName id
    · obtain ⟨table, tabled, stepped⟩ := grown.tabled
      rw [Builder.element_start_eq]
      refine ⟨Function.update table b.elements.length (b.steps ++ Builder.nextStep b.childCounts),
        ⟨Function.update_self .., ?_⟩, ?_⟩
      · apply tabled_update table _ _ _ _ grown.opened
        cases counts : b.childCounts with
        | nil =>
            have empty : b.open = [] := by
              apply List.eq_nil_of_length_eq_zero
              rw [grown.depth, ← grown.shaped.childCounts, counts, List.length_nil]
            rw [empty]
            trivial
        | cons count outer =>
            rw [Builder.nextStep, List.dropLast_concat]
            exact tabled
      · intro cluster member
        have before := stepped cluster member
        constructor
        · simp only [List.length_append]
          omega
        · rw [Function.update_of_ne (Nat.ne_of_lt before.1)]
          exact before.2
  close b r grown := by
    have both := Shaped.keeps.close b r ⟨grown.tiled, grown.shaped⟩
    obtain ⟨table, tabled, stepped⟩ := grown.tabled
    refine ⟨both.1, both.2, ?_, ?_, ?_, ?_, ?_⟩
    · rw [Builder.element_end_eq]
      simp [Reading.close, grown.depth]
    · rw [Builder.element_end_eq]
      exact fun idx member => grown.opened idx (List.mem_of_mem_tail member)
    · rw [Builder.element_end_eq]
      intro zero
      obtain ⟨empty, none⟩ := grown.bare zero
      exact ⟨by simp [Reading.close, empty], none⟩
    · rw [Builder.element_end_eq]
      exact grown.treed
    · rw [Builder.element_end_eq]
      refine ⟨table, ?_, stepped⟩
      cases shape : b.open with
      | nil => trivial
      | cons idx outer =>
          rw [shape] at tabled
          cases outer with
          | nil => trivial
          | cons parent outer =>
              have deeper : b.childCounts.tail ≠ [] := by
                intro empty
                have length := congrArg List.length empty
                rw [List.length_tail, grown.shaped.childCounts, ← grown.depth, shape] at length
                simp at length
              rw [if_pos deeper]
              exact tabled.2
  text b r decoded sourceBytes grown := by
    have both := Shaped.keeps.text b r decoded sourceBytes ⟨grown.tiled, grown.shaped⟩
    by_cases inBody : b.bodyDepth = 0
    · rwa [Builder.chars, if_pos inBody, Reading.text,
        if_pos (by rw [← grown.tiled.bodyDepth, inBody])]
    · obtain ⟨table, tabled, stepped⟩ := grown.stepped_opened inBody
      obtain ⟨front, cluster, last⟩ := grown.tiled.opened_last
      have tree := Builder.opened_tree b
      rw [Builder.chars_eq decoded sourceBytes b inBody front cluster last] at both ⊢
      refine grown.congr both.1 both.2 ?_ ?_ tree.1 tree.2 ⟨table, tabled, ?_⟩
      · rw [Reading.text, if_neg (by rwa [← grown.tiled.bodyDepth])]
      · rw [Reading.text, if_neg (by rwa [← grown.tiled.bodyDepth])]
      · apply stepped_of_places table stepped (by rfl)
        rw [last.clusters]
        simp [Builder.absorb, Builder.extendCluster]
  flag b r grown := by
    have both := Shaped.keeps.flag b r ⟨grown.tiled, grown.shaped⟩
    obtain ⟨table, tabled, stepped⟩ := grown.tabled
    cases openCluster : b.openCluster with
    | none => rwa [Builder.flagMarkup, openCluster]
    | some i =>
        obtain ⟨front, cluster, last⟩ := grown.tiled.opened_last
        rw [Builder.opened_of_some b i openCluster] at last
        rw [Builder.flag_markup_last b front cluster last] at both ⊢
        refine grown.congr both.1 both.2 rfl rfl rfl rfl ⟨table, tabled, ?_⟩
        apply stepped_of_places table stepped (by rfl)
        rw [last.clusters]
        simp
  pending b r grown := by
    have both := Shaped.keeps.pending b r ⟨grown.tiled, grown.shaped⟩
    exact grown.congr both.1 both.2 rfl rfl rfl rfl grown.tabled

end Grown

theorem walk_grown (events : List Event) : Grown (walk events) (read events) :=
  Grown.keeps.walk
    { tiled := walk_tiled []
      shaped := by constructor <;> simp
      depth := rfl
      opened := by simp
      bare := fun _ => ⟨rfl, rfl⟩
      treed := fun _ => by constructor <;> simp
      tabled := ⟨fun _ => [], trivial, by simp [Stepped]⟩ }
    events

end Omnibus.KoreaderPosition
