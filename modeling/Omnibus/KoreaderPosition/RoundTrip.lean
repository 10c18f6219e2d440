import Omnibus.KoreaderPosition.Paths

/-!
# Pointers round-trip through CFIs

Every tail the pointers can express comes back from its pointer, and every pointer into a text
node has a canonical one for the same tail.
-/

namespace Omnibus.KoreaderPosition

open Omnibus.Library.Strings
open Omnibus.KoboPosition (u32Bound Cluster Element FileIndex CfiTail Event SingleRoot addresses
  addresses_nodup indexFile utf16Length read walk)

def OneBody (elements : List Element) : Prop :=
  (sameNameSiblings elements (some 0) "body".toList).length = 1

instance (elements : List Element) : Decidable (OneBody elements) :=
  inferInstanceAs (Decidable (_ = _))

structure Counted (index : FileIndex) : Prop where
  narrow : Narrow index.elements
  texts : ∀ element, (textNodes index element).length < u32Bound
  offset : ∀ cluster ∈ index.clusters, utf16Length cluster.raw < u32Bound

structure Sound (index : FileIndex) : Prop where
  treed : Treed index.elements
  distinct : (addresses index.clusters).Nodup
  placed : ∀ cluster ∈ index.clusters, cluster.parent < index.elements.length
  stepped : ∀ left ∈ index.clusters, ∀ right ∈ index.clusters, left.parent = right.parent →
    left.elementSteps = right.elementSteps

theorem index_file_sound (events : List Event) (single : SingleRoot events) :
    Sound (indexFile events) := by
  have grown := walk_grown events
  obtain ⟨table, _, stepped⟩ := grown.tabled
  exact {
    treed := grown.treed single
    distinct := addresses_nodup events single
    placed := fun cluster member => (stepped cluster member).1
    stepped := fun left leftMember right rightMember same => by
      rw [(stepped left leftMember).2, (stepped right rightMember).2, same] }

section Nodes

variable {index : FileIndex}

theorem exact_cluster_tail (sound : Sound index) (cluster : Cluster)
    (member : cluster ∈ index.clusters) (offset : Nat) :
    exactCluster index (cluster.tail offset) = some cluster := by
  cases search : exactCluster index (cluster.tail offset) with
  | none =>
      have absent := List.find?_eq_none.mp search cluster member
      simp [Cluster.tail] at absent
  | some other =>
      have same := List.find?_some search
      have otherMember := List.mem_of_find?_eq_some search
      simp only [Cluster.tail, Bool.and_eq_true] at same
      congr 1
      exact List.inj_on_of_nodup_map sound.distinct otherMember member
        (Prod.ext (of_decide_eq_true same.1) (of_decide_eq_true same.2))

theorem landed_tail (sound : Sound index) (cluster : Cluster) (member : cluster ∈ index.clusters)
    (offset : Nat) :
    landedCluster index (cluster.tail offset) false = some (cluster, offset) := by
  rw [landedCluster, if_neg Bool.false_ne_true, exact_cluster_tail sound cluster member]
  rfl

theorem mem_text_nodes (element : Nat) (cluster : Cluster) :
    cluster ∈ textNodes index element ↔ cluster ∈ index.clusters ∧ cluster.parent = element := by
  simp [textNodes]

theorem text_node_unique (sound : Sound index) (element : Nat) (left right : Cluster)
    (leftMember : left ∈ textNodes index element) (rightMember : right ∈ textNodes index element)
    (same : left.textIndex = right.textIndex) : left = right := by
  obtain ⟨leftListed, leftParent⟩ := (mem_text_nodes element left).mp leftMember
  obtain ⟨rightListed, rightParent⟩ := (mem_text_nodes element right).mp rightMember
  have steps := sound.stepped left leftListed right rightListed (leftParent.trans rightParent.symm)
  exact List.inj_on_of_nodup_map sound.distinct leftListed rightListed (Prod.ext steps same)

theorem text_nodes_nodup (sound : Sound index) (element : Nat) :
    (textNodes index element).Nodup :=
  (List.Nodup.of_map _ sound.distinct).filter _

theorem position_of_node (sound : Sound index) (element position : Nat) (cluster : Cluster)
    (here : (textNodes index element)[position]? = some cluster) :
    (textNodes index element).findIdx? (fun node => node.textIndex == cluster.textIndex) =
      some position := by
  obtain ⟨within, same⟩ := List.getElem?_eq_some_iff.mp here
  rw [List.findIdx?_eq_some_iff_getElem]
  refine ⟨within, by rw [same]; exact beq_self_eq_true _, ?_⟩
  intro earlier before
  have other : (textNodes index element)[earlier] ≠ cluster := by
    intro twice
    rw [← same] at twice
    have := (text_nodes_nodup sound element).getElem_inj_iff.mp twice
    omega
  simp only [beq_iff_eq]
  intro sameIndex
  exact other (text_node_unique sound element _ _ (List.getElem_mem _)
    (List.mem_of_getElem? here) sameIndex)

theorem node_of_position (sound : Sound index) (cluster : Cluster) (position : Nat)
    (member : cluster ∈ index.clusters)
    (search : (textNodes index cluster.parent).findIdx?
      (fun node => node.textIndex == cluster.textIndex) = some position) :
    (textNodes index cluster.parent)[position]? = some cluster := by
  obtain ⟨within, same, _⟩ := List.findIdx?_eq_some_iff_getElem.mp search
  rw [List.getElem?_eq_getElem within]
  congr 1
  exact text_node_unique sound cluster.parent _ _ (List.getElem_mem _)
    ((mem_text_nodes _ _).mpr ⟨member, rfl⟩) (by simpa using same)

theorem first_of_single (nodes : List Cluster) (position : Nat) (within : position < nodes.length)
    (stable : (nodes.take (position + 1)).all stableRun = true)
    (single : ¬(nodes.filter fun node => !isBlank node.raw).length > 1) : position = 0 := by
  have kept : (nodes.take (position + 1)).filter (fun node => !isBlank node.raw) =
      nodes.take (position + 1) := by
    rw [List.filter_eq_self]
    intro node member
    have run := List.all_eq_true.mp stable node member
    simp only [stableRun, Bool.and_eq_true] at run
    exact run.2
  have fewer := ((List.take_sublist (position + 1) nodes).filter
    fun node => !isBlank node.raw).length_le
  rw [kept, List.length_take] at fewer
  omega

end Nodes

section Body

variable {elements : List Element}

theorem body_first (oneBody : OneBody elements) (body : Nat) (below : Child elements 0 body)
    (named : elements[body]?.any (fun element => sameName element.local "body".toList) = true) :
    childElement elements 0 "body".toList one = some body := by
  obtain ⟨element, found, up⟩ := below
  rw [found, Option.any_some] at named
  have listed := (mem_same_name_siblings (some 0) "body".toList body).mpr
    ⟨element, found, up, named⟩
  obtain ⟨only, single⟩ := List.length_eq_one_iff.mp oneBody
  rw [single, List.mem_singleton] at listed
  rw [childElement, single, listed]
  rfl

theorem body_child (body : Nat)
    (reached : childElement elements 0 "body".toList one = some body) :
    Child elements 0 body ∧
      elements[body]?.any (fun element => sameName element.local "body".toList) = true := by
  obtain ⟨element, found, up, named⟩ :=
    (mem_same_name_siblings _ _ body).mp (List.mem_of_getElem? reached)
  exact ⟨⟨element, found, up⟩, by rw [found, Option.any_some, named]⟩

end Body

section RoundTrip

variable {index : FileIndex}

/-- What a pointer proves: the text node it stands in, and a way down to its element. -/
structure Vouched (index : FileIndex) (cluster : Cluster) (position : Nat)
    (written : List (Text × Option Nat)) : Prop where
  provable : insideUnprovable index.elements cluster.parent = false
  here : (textNodes index cluster.parent)[position]? = some cluster
  stable : ((textNodes index cluster.parent).take (position + 1)).all stableRun = true
  path : elementPath index.elements cluster.parent = some written

def nodeNumber (index : FileIndex) (cluster : Cluster) (position : Nat) : Option Nat :=
  if ((textNodes index cluster.parent).filter fun node => !isBlank node.raw).length > 1 then
    some ((position + 1) % u32Bound)
  else none

theorem xpointer_for_eq (sound : Sound index) (cluster : Cluster)
    (member : cluster ∈ index.clusters) (position : Nat) (written : List (Text × Option Nat))
    (vouched : Vouched index cluster position written) (utf16Offset offset : Nat)
    (mapped : crengineOffset cluster.raw utf16Offset = some offset) (fragment : Option Ordinal) :
    xpointerFor index (cluster.tail utf16Offset) false fragment =
      some (format (fragment.map Subtype.val) written
        (some (nodeNumber index cluster position, offset))) := by
  have landed := landed_tail sound cluster member utf16Offset
  have search := position_of_node sound cluster.parent position cluster vouched.here
  simp only [xpointerFor, landed, Option.bind_eq_bind, Option.bind_some, vouched.provable,
    Bool.false_eq_true, if_false, search, vouched.stable, if_true, mapped, vouched.path, nodeNumber]

theorem vouched_of_pointer (sound : Sound index) (cluster : Cluster)
    (member : cluster ∈ index.clusters) (utf16Offset : Nat) (fragment : Option Ordinal)
    (pointer : Text)
    (formed : xpointerFor index (cluster.tail utf16Offset) false fragment = some pointer) :
    ∃ position written, Vouched index cluster position written := by
  have landed := landed_tail sound cluster member utf16Offset
  rw [xpointerFor, landed, Option.bind_eq_bind, Option.bind_some] at formed
  by_cases unprovable : insideUnprovable index.elements cluster.parent = true
  · simp only [unprovable, if_true] at formed
    cases formed
  · simp only [unprovable] at formed
    obtain ⟨position, search, formed⟩ := Option.bind_eq_some_iff.mp formed
    by_cases stable : ((textNodes index cluster.parent).take (position + 1)).all stableRun = true
    · rw [if_pos stable] at formed
      obtain ⟨offset, _, formed⟩ := Option.bind_eq_some_iff.mp formed
      obtain ⟨written, path, _⟩ := Option.bind_eq_some_iff.mp formed
      exact ⟨position, written, {
        provable := Bool.eq_false_iff.mpr unprovable
        here := node_of_position sound cluster position member search
        stable := stable
        path := path }⟩
    · rw [if_neg stable] at formed
      cases formed

theorem path_leads_back (sound : Sound index) (counted : Counted index)
    (oneBody : OneBody index.elements) (idx : Nat) (inside : idx < index.elements.length)
    (written : List (Text × Option Nat)) (path : elementPath index.elements idx = some written) :
    ∃ body steps, childElement index.elements 0 "body".toList one = some body ∧
      List.Forall₂ Writes written steps ∧ descend index.elements body steps = some idx := by
  obtain ⟨chain, first, last⟩ := chain_from_root sound.treed idx inside
  rw [elementPath] at path
  cases shape : (ancestors index.elements idx).reverse with
  | nil =>
      rw [shape] at path
      cases path
  | cons root inner =>
      rw [shape] at path chain first last
      cases inner with
      | nil => cases path
      | cons body below =>
          obtain rfl : root = 0 := Option.some.inj first
          simp only at path
          split_ifs at path with named
          rw [List.isChain_cons_cons] at chain
          obtain ⟨steps, writes, leads⟩ :=
            descend_written counted.narrow body below written chain.2 path
          refine ⟨body, steps, body_first oneBody body chain.1 named, writes, ?_⟩
          rw [leads, ← last, List.getLast?_cons_cons]

theorem text_tail_eq (cluster : Cluster) (position : Nat) (written : List (Text × Option Nat))
    (vouched : Vouched index cluster position written) (text : TextStep)
    (number : text.index.1 = position + 1) :
    textTail index cluster.parent text =
      (rawOffset cluster.raw text.offset).map fun offset => cluster.tail offset := by
  have within := (List.getElem?_eq_some_iff.mp vouched.here).1
  have fits : text.index.1 ≤ (textNodes index cluster.parent).length := by omega
  simp only [textTail, vouched.provable, Bool.false_eq_true, if_false, number]
  rw [if_pos ⟨by omega, vouched.stable⟩, Nat.add_sub_cancel, vouched.here, Option.bind_eq_bind,
    Option.bind_some, Option.map_eq_bind]
  rfl

theorem vouched_round_trip (sound : Sound index) (counted : Counted index)
    (oneBody : OneBody index.elements) (cluster : Cluster) (member : cluster ∈ index.clusters)
    (position : Nat) (written : List (Text × Option Nat))
    (vouched : Vouched index cluster position written) (utf16Offset : Nat)
    (boundary : Boundary cluster.raw utf16Offset) (fragment : Option Ordinal) :
    ∃ pointer xp, xpointerFor index (cluster.tail utf16Offset) false fragment = some pointer ∧
      parse pointer = some xp ∧ cfiTailFor index xp = some (cluster.tail utf16Offset) := by
  obtain ⟨offset, mapped, small, back⟩ := crengine_offset_boundary cluster.raw utf16Offset boundary
  have within := (List.getElem?_eq_some_iff.mp vouched.here).1
  have nodes := counted.texts cluster.parent
  have raw := counted.offset cluster member
  have bounded : position + 1 < u32Bound := by omega
  obtain ⟨body, steps, reached, writes, leads⟩ := path_leads_back sound counted oneBody
    cluster.parent (sound.placed cluster member) written vouched.path
  let text : TextStep := ⟨⟨position + 1, by omega, bounded⟩, offset⟩
  have node : (nodeNumber index cluster position).getD 1 = text.index.1 := by
    rw [nodeNumber]
    split_ifs with several
    · exact Nat.mod_eq_of_lt bounded
    · have first := first_of_single _ position within vouched.stable several
      show 1 = position + 1
      omega
  refine ⟨_, ⟨fragment, steps, some text⟩, xpointer_for_eq sound cluster member position written
    vouched utf16Offset offset mapped fragment, ?_, ?_⟩
  · exact parse_format fragment written steps writes _ text node
      (Nat.lt_of_le_of_lt small raw)
  · simp only [cfiTailFor, reached, Option.bind_eq_bind, Option.bind_some, leads]
    rw [text_tail_eq cluster position written vouched text rfl, back]
    rfl

theorem vouched_of_tail (sound : Sound index) (xp : XPointer) (text : TextStep)
    (node : xp.text = some text) (tail : CfiTail) (resolved : cfiTailFor index xp = some tail) :
    ∃ cluster position written utf16Offset, cluster ∈ index.clusters ∧
      Vouched index cluster position written ∧ Boundary cluster.raw utf16Offset ∧
      tail = cluster.tail utf16Offset := by
  rw [cfiTailFor] at resolved
  obtain ⟨body, reached, below⟩ := Option.bind_eq_some_iff.mp resolved
  obtain ⟨element, leads, inside⟩ := Option.bind_eq_some_iff.mp below
  simp only [node, textTail] at inside
  split_ifs at inside with unprovable numbered
  obtain ⟨cluster, here, found⟩ := Option.bind_eq_some_iff.mp inside
  obtain ⟨utf16Offset, mapped, same⟩ := Option.bind_eq_some_iff.mp found
  obtain ⟨member, rfl⟩ := (mem_text_nodes _ cluster).mp (List.mem_of_getElem? here)
  obtain ⟨child, named⟩ := body_child body reached
  obtain ⟨below, written, chain, path⟩ := descend_reached sound.treed body cluster.parent xp.steps
    leads
  have positive := text.index.2.1
  have top := ancestors_first sound.treed body child
  refine ⟨cluster, text.index.1 - 1, written, utf16Offset, member, ?_, ?_, ?_⟩
  · exact {
      provable := Bool.eq_false_iff.mpr unprovable
      here := here
      stable := by
        rw [Nat.sub_add_cancel positive]
        exact numbered.2
      path := by
        rw [elementPath, chain, ancestors_child sound.treed 0 body child, top]
        exact (if_pos named).trans path }
  · exact raw_offset_boundary cluster.raw text.offset utf16Offset mapped
  · exact (Option.some.inj same).symm

end RoundTrip

/-- A tail at a boundary that has a pointer comes back from it, and a pointer into a text node
that has a tail has a canonical pointer for the same tail. -/
theorem pointer_round_trip (events : List Event) (single : SingleRoot events)
    (counted : Counted (indexFile events)) (oneBody : OneBody (indexFile events).elements)
    (fragment : Option Ordinal) :
    (∀ tail, ∀ cluster ∈ (indexFile events).clusters, tail = cluster.tail tail.offsetUtf16 →
      Boundary cluster.raw tail.offsetUtf16 →
      ∀ pointer, xpointerFor (indexFile events) tail false fragment = some pointer →
        ∃ xp, parse pointer = some xp ∧ cfiTailFor (indexFile events) xp = some tail) ∧
    ∀ xp : XPointer, xp.text.isSome = true →
      ∀ tail, cfiTailFor (indexFile events) xp = some tail →
        ∃ pointer back, xpointerFor (indexFile events) tail false fragment = some pointer ∧
          parse pointer = some back ∧ cfiTailFor (indexFile events) back = some tail := by
  have sound := index_file_sound events single
  constructor
  · intro tail cluster member names boundary pointer formed
    rw [names] at formed ⊢
    obtain ⟨position, written, vouched⟩ :=
      vouched_of_pointer sound cluster member _ fragment pointer formed
    obtain ⟨again, xp, same, parsed, back⟩ := vouched_round_trip sound counted oneBody cluster
      member position written vouched _ boundary fragment
    obtain rfl := Option.some.inj (formed.symm.trans same)
    exact ⟨xp, parsed, back⟩
  · intro xp inText tail resolved
    obtain ⟨text, node⟩ := Option.isSome_iff_exists.mp inText
    obtain ⟨cluster, position, written, utf16Offset, member, vouched, boundary, rfl⟩ :=
      vouched_of_tail sound xp text node tail resolved
    exact vouched_round_trip sound counted oneBody cluster member position written vouched
      utf16Offset boundary fragment

def twoParagraphs : List Event :=
  [.start "html".toList "html".toList none, .start "body".toList "BODY".toList none,
    .start "p".toList "p".toList none, .text "a  b".toList 4,
    .start "em".toList "em".toList none, .text "c".toList 1, .close,
    .text "d  e".toList 4, .close,
    .start "p".toList "p".toList none, .text "f".toList 1, .close, .close, .close]

theorem two_paragraphs_counted : Counted (indexFile twoParagraphs) where
  narrow := fun _ => Nat.lt_of_le_of_lt (List.length_filter_le ..) (by decide)
  texts := fun _ => Nat.lt_of_le_of_lt (List.length_filter_le ..) (by decide)
  offset := by decide

theorem pointer_round_trip_paragraphs :
    ∃ xp, parse "/body/DocFragment/body/p[1]/text()[2].2".toList = some xp ∧
      cfiTailFor (indexFile twoParagraphs) xp =
        some { elementSteps := [2, 2], textIndex := 3, offsetUtf16 := 3 } :=
  (pointer_round_trip twoParagraphs (by decide) two_paragraphs_counted (by decide) none).1
    _ ((indexFile twoParagraphs).clusters.get ⟨2, by decide⟩) (List.get_mem ..) (by decide)
    ⟨"d  ".toList, "e".toList, by decide, by decide, by simp [Unswallowed, isSpace]⟩ _ (by decide)

end Omnibus.KoreaderPosition
