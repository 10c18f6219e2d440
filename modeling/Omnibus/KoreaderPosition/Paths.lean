import Mathlib
import Omnibus.KoreaderPosition.Pointers

/-!
# Paths lead back

In a well-nested tree the ancestors of an element form one chain from the root. The steps written
down the chain lead back along it, and steps that lead somewhere are written down again.
-/

namespace Omnibus.KoreaderPosition

open Omnibus.Library.Strings
open Omnibus.KoboPosition (u32Bound Element)

section Ancestors

variable {elements : List Element}

/-- `child` stands directly under `parent`. -/
def Child (elements : List Element) (parent child : Nat) : Prop :=
  ∃ element, elements[child]? = some element ∧ element.parent = some parent

theorem ancestors_within_enough (treed : Treed elements) (idx fuel : Nat) (enough : idx < fuel) :
    ancestorsWithin elements fuel idx = ancestors elements idx := by
  induction idx using Nat.strong_induction_on generalizing fuel with
  | _ idx induction =>
      obtain ⟨fuel, rfl⟩ : ∃ less, fuel = less + 1 := ⟨fuel - 1, by omega⟩
      rw [ancestors, ancestorsWithin, ancestorsWithin]
      cases above : elements[idx]?.bind Element.parent with
      | none => rfl
      | some parent =>
          obtain ⟨element, found, up⟩ := Option.bind_eq_some_iff.mp above
          have smaller := treed.earlier idx element found parent up
          simp only
          rw [induction parent smaller fuel (by omega), induction parent smaller idx smaller]

theorem ancestors_child (treed : Treed elements) (parent child : Nat)
    (below : Child elements parent child) :
    ancestors elements child = child :: ancestors elements parent := by
  obtain ⟨element, found, up⟩ := below
  have smaller := treed.earlier child element found parent up
  rw [ancestors, ancestorsWithin, found, Option.bind_some, up]
  exact congrArg _ (ancestors_within_enough treed parent child smaller)

theorem ancestors_root (element : Element) (idx : Nat) (found : elements[idx]? = some element)
    (top : element.parent = none) : ancestors elements idx = [idx] := by
  rw [ancestors, ancestorsWithin, found, Option.bind_some, top]

/-- Nothing stands above the first element: a parent would have opened before it. -/
theorem ancestors_first (treed : Treed elements) (child : Nat) (below : Child elements 0 child) :
    ancestors elements 0 = [0] := by
  obtain ⟨element, found, up⟩ := below
  have smaller := treed.earlier child element found 0 up
  have inside : 0 < elements.length :=
    Nat.lt_trans smaller (List.getElem?_eq_some_iff.mp found).1
  have first := List.getElem?_eq_getElem inside
  cases above : elements[0].parent with
  | none => exact ancestors_root elements[0] 0 first above
  | some parent => exact absurd (treed.earlier 0 _ first parent above) (Nat.not_lt_zero parent)

/-- The ancestors, the root first, are one chain of children that starts at the first element. -/
theorem chain_from_root (treed : Treed elements) (idx : Nat) (inside : idx < elements.length) :
    (ancestors elements idx).reverse.IsChain (Child elements) ∧
      (ancestors elements idx).reverse.head? = some 0 ∧
      (ancestors elements idx).reverse.getLast? = some idx := by
  induction idx using Nat.strong_induction_on with
  | _ idx induction =>
      have found := List.getElem?_eq_getElem inside
      cases up : elements[idx].parent with
      | none =>
          rw [ancestors_root elements[idx] idx found up]
          have first := treed.rooted idx _ found up
          exact ⟨List.isChain_singleton _, by rw [first]; rfl, rfl⟩
      | some parent =>
          have below : Child elements parent idx := ⟨_, found, up⟩
          have smaller := treed.earlier idx _ found parent up
          obtain ⟨chain, first, last⟩ := induction parent smaller (by omega)
          rw [ancestors_child treed parent idx below, List.reverse_cons]
          refine ⟨?_, ?_, List.getLast?_concat ..⟩
          · rw [List.isChain_append]
            refine ⟨chain, List.isChain_singleton _, ?_⟩
            intro upper member lower single
            rw [last, Option.mem_some_iff] at member
            rw [List.head?_cons, Option.mem_some_iff] at single
            rwa [← member, ← single]
          · rw [List.head?_append, first, Option.some_or]

end Ancestors

section Siblings

variable {elements : List Element}

theorem mem_same_name_siblings (parent : Option Nat) (name : Text) (idx : Nat) :
    idx ∈ sameNameSiblings elements parent name ↔
      ∃ element, elements[idx]? = some element ∧ element.parent = parent ∧
        sameName element.local name = true := by
  simp only [sameNameSiblings, List.mem_map, List.mem_filter, Prod.exists,
    List.mk_mem_zipIdx_iff_getElem?, Bool.and_eq_true, decide_eq_true_eq]
  constructor
  · intro ⟨element, _, ⟨found, up, named⟩, equal⟩
    subst equal
    exact ⟨element, found, up, named⟩
  · intro ⟨element, found, up, named⟩
    exact ⟨element, idx, ⟨found, up, named⟩, rfl⟩

theorem lowercase_idem (name : Text) : lowercase (lowercase name) = lowercase name := by
  simp [lowercase]

theorem siblings_congr (parent : Option Nat) (left right : Text)
    (same : lowercase left = lowercase right) :
    sameNameSiblings elements parent left = sameNameSiblings elements parent right := by
  simp only [sameNameSiblings, sameName, same]

theorem is_alphanum_to_lower (symbol : Char) : symbol.toLower.isAlphanum = symbol.isAlphanum := by
  have digit : symbol.toLower.isDigit = symbol.isDigit := by
    simp only [Char.isDigit, Char.toLower]
    split <;> grind [UInt32.toNat_add, Char.toNat_val]
  rw [Char.isAlphanum, Char.isAlphanum, Char.isAlpha_toLower_eq_isAlpha, digit]

theorem is_name_lowercase (name : Text) : isName (lowercase name) = isName name := by
  cases name with
  | nil => rfl
  | cons first rest =>
      have others : (rest.map Char.toLower).all Char.isAlphanum = rest.all Char.isAlphanum := by
        rw [List.all_map]
        exact congrArg rest.all (funext is_alphanum_to_lower)
      simp only [lowercase, List.map_cons, isName, Char.isAlpha_toLower_eq_isAlpha, others]

end Siblings

/-! ## Writing steps and following them -/

section Steps

variable {elements : List Element}

/-- Same-name siblings stay within the numbers a pointer can carry. -/
def Narrow (elements : List Element) : Prop :=
  ∀ parent : Nat, (elements.filter fun element => decide (element.parent = some parent)).length <
    u32Bound

theorem siblings_length_le (parent : Option Nat) (name : Text) :
    (sameNameSiblings elements parent name).length ≤
      (elements.filter fun element => decide (element.parent = parent)).length := by
  have split : sameNameSiblings elements parent name =
      ((elements.zipIdx.filter fun entry => decide (entry.1.parent = parent)).filter
        fun entry => sameName entry.1.local name).map Prod.snd := by
    rw [List.filter_filter, sameNameSiblings]
    congr 2
    funext entry
    exact Bool.and_comm ..
  have whole : (elements.zipIdx.filter fun entry => decide (entry.1.parent = parent)).length =
      (elements.filter fun element => decide (element.parent = parent)).length := by
    rw [← List.countP_eq_length_filter, ← List.countP_eq_length_filter,
      show (fun entry : Element × Nat => decide (entry.1.parent = parent)) =
        (fun element : Element => decide (element.parent = parent)) ∘ Prod.fst from rfl,
      ← List.countP_map, List.zipIdx_map_fst]
  rw [split, List.length_map, ← whole]
  exact List.length_filter_le ..

theorem path_step_some (narrow : Narrow elements) (parent idx : Nat)
    (below : Child elements parent idx) (written : Text × Option Nat)
    (step : pathStep elements idx = some written) :
    ∃ read : Step, Writes written read ∧
      childElement elements parent read.name read.index = some idx := by
  obtain ⟨element, found, up⟩ := below
  simp only [pathStep, found, Option.bind_eq_bind, Option.bind_some, up] at step
  by_cases named : isName (lowercase element.local) = true
  · rw [if_pos named] at step
    obtain ⟨position, search, pair⟩ := Option.bind_eq_some_iff.mp step
    obtain rfl := Option.some.inj pair
    have fits : (sameNameSiblings elements (some parent) (lowercase element.local)).length <
        u32Bound := Nat.lt_of_le_of_lt (siblings_length_le _ _) (narrow parent)
    obtain ⟨within, here, _⟩ := List.findIdx?_eq_some_iff_getElem.mp search
    have bounded : position + 1 < u32Bound := by omega
    refine ⟨⟨lowercase element.local, ⟨position + 1, by omega, bounded⟩, named⟩, ⟨rfl, ?_⟩, ?_⟩
    · by_cases several :
          (sameNameSiblings elements (some parent) (lowercase element.local)).length > 1
      · simp only [if_pos several, Option.getD_some]
        exact Nat.mod_eq_of_lt bounded
      · simp only [if_neg several, Option.getD_none]
        omega
    · rw [childElement, Nat.add_sub_cancel, List.getElem?_eq_getElem within]
      exact congrArg some (by simpa using here)
  · rw [if_neg named] at step
    cases step

theorem child_element_some (parent : Nat) (read : Step) (idx : Nat)
    (reached : childElement elements parent read.name read.index = some idx) :
    Child elements parent idx ∧ ∃ written, pathStep elements idx = some written := by
  have member := List.mem_of_getElem? reached
  obtain ⟨element, found, up, same⟩ := (mem_same_name_siblings _ _ idx).mp member
  refine ⟨⟨element, found, up⟩, ?_⟩
  have names : lowercase element.local = lowercase read.name := by simpa [sameName] using same
  have named : isName (lowercase element.local) = true := by
    rw [names, is_name_lowercase]
    exact read.named
  have listed : idx ∈ sameNameSiblings elements (some parent) (lowercase element.local) := by
    rw [siblings_congr _ _ read.name (by rw [lowercase_idem, names])]
    exact member
  have search : ((sameNameSiblings elements (some parent) (lowercase element.local)).findIdx?
      (· == idx)).isSome = true := by
    rw [List.findIdx?_isSome, List.any_eq_true]
    exact ⟨idx, listed, beq_self_eq_true idx⟩
  obtain ⟨position, search⟩ := Option.isSome_iff_exists.mp search
  simp only [pathStep, found, Option.bind_eq_bind, Option.bind_some, if_pos named, up, search]
  exact ⟨_, rfl⟩

theorem descend_written (narrow : Narrow elements) (start : Nat) (below : List Nat)
    (written : List (Text × Option Nat)) (chain : (start :: below).IsChain (Child elements))
    (path : below.mapM (pathStep elements) = some written) :
    ∃ steps, List.Forall₂ Writes written steps ∧
      descend elements start steps = (start :: below).getLast? := by
  induction below generalizing start written with
  | nil =>
      obtain rfl : written = [] := by simpa using path.symm
      exact ⟨[], List.Forall₂.nil, rfl⟩
  | cons idx below induction =>
      rw [List.isChain_cons_cons] at chain
      rw [List.mapM_cons] at path
      obtain ⟨first, here, path⟩ := Option.bind_eq_some_iff.mp path
      obtain ⟨others, later, pair⟩ := Option.bind_eq_some_iff.mp path
      obtain rfl := Option.some.inj pair
      obtain ⟨read, writes, reached⟩ := path_step_some narrow start idx chain.1 first here
      obtain ⟨steps, deeper, leads⟩ := induction idx others chain.2 later
      refine ⟨read :: steps, List.Forall₂.cons writes deeper, ?_⟩
      rw [descend, List.foldlM_cons, reached, List.getLast?_cons_cons]
      exact leads

theorem descend_reached (treed : Treed elements) (start idx : Nat) (steps : List Step)
    (leads : descend elements start steps = some idx) :
    ∃ below written, (ancestors elements idx).reverse =
        (ancestors elements start).reverse ++ below ∧
      below.mapM (pathStep elements) = some written := by
  induction steps generalizing start with
  | nil =>
      obtain rfl : start = idx := Option.some.inj leads
      exact ⟨[], [], by rw [List.append_nil], rfl⟩
  | cons read steps induction =>
      rw [descend, List.foldlM_cons] at leads
      obtain ⟨next, reached, leads⟩ := Option.bind_eq_some_iff.mp leads
      obtain ⟨below, written, chain, path⟩ := induction next leads
      obtain ⟨child, first, here⟩ := child_element_some start read next reached
      refine ⟨next :: below, first :: written, ?_, ?_⟩
      · rw [chain, ancestors_child treed start next child, List.reverse_cons, List.append_assoc]
        rfl
      · rw [List.mapM_cons, here, path]
        rfl

end Steps

end Omnibus.KoreaderPosition
