import Omnibus.KoboPosition.Addresses

/-!
# The element of a cluster

A cluster names the element its text stands in by a place in the element table, and by the steps
down to it. Both name one element: the steps are those the walk was at when that element opened.
-/

namespace Omnibus.KoboPosition

open Omnibus.Library.Strings

structure SameTags (before after : Builder) : Prop where
  childCounts : after.childCounts = before.childCounts
  steps : after.steps = before.steps
  «open» : after.open = before.open
  elements : after.elements = before.elements

namespace SameTags

theorem refl (b : Builder) : SameTags b b := ⟨rfl, rfl, rfl, rfl⟩

theorem trans {first second third : Builder} (left : SameTags first second)
    (right : SameTags second third) : SameTags first third :=
  ⟨right.childCounts.trans left.childCounts, right.steps.trans left.steps,
    right.open.trans left.open, right.elements.trans left.elements⟩

theorem push_char (cluster : Nat) (b : Builder) (symbol : Char) :
    SameTags b (Builder.pushChar cluster b symbol) := by
  unfold Builder.pushChar
  dsimp only
  split_ifs <;> exact ⟨rfl, rfl, rfl, rfl⟩

theorem push_chars (cluster : Nat) (text : Text) (b : Builder) :
    SameTags b (text.foldl (Builder.pushChar cluster) b) := by
  induction text generalizing b with
  | nil => exact ⟨rfl, rfl, rfl, rfl⟩
  | cons symbol rest induction => exact (push_char cluster b symbol).trans (induction _)

theorem ensure_cluster (b : Builder) : SameTags b b.ensureCluster.2 := by
  unfold Builder.ensureCluster Builder.takePendingMarkup
  cases b.openCluster with
  | some i => exact ⟨rfl, rfl, rfl, rfl⟩
  | none =>
      dsimp only
      split_ifs <;> exact ⟨rfl, rfl, rfl, rfl⟩

theorem chars (text : Text) (sourceBytes : Nat) (b : Builder) :
    SameTags b (b.chars text sourceBytes) := by
  have ensured := ensure_cluster b
  unfold Builder.chars
  split_ifs
  · exact ⟨rfl, rfl, rfl, rfl⟩
  · cases opened : b.ensureCluster with
    | mk cluster next =>
        rw [opened] at ensured
        let filled := { next with
          openCluster := some cluster
          clusters := next.clusters.modify cluster fun c =>
            { c with raw := c.raw ++ text, sourceBytes := c.sourceBytes + sourceBytes } }
        have kept : SameTags next filled := ⟨rfl, rfl, rfl, rfl⟩
        exact (ensured.trans kept).trans (push_chars cluster text filled)

theorem flag_markup (b : Builder) : SameTags b b.flagMarkup := by
  unfold Builder.flagMarkup
  split <;> exact ⟨rfl, rfl, rfl, rfl⟩

theorem general_ref (name : Text) (charRef : Option Char) (b : Builder) :
    SameTags b (b.event (.generalRef name charRef)) := by
  simp only [Builder.event, Builder.flagMarkupOrNext]
  split
  · split_ifs
    · exact (chars _ _ b).trans (flag_markup _)
    · exact chars _ _ b
  · split_ifs
    · exact flag_markup b
    · exact ⟨rfl, rfl, rfl, rfl⟩

end SameTags

theorem enter_step_steps (b : Builder) :
    b.enterStep.steps = b.steps ++ Builder.nextStep b.childCounts := by
  unfold Builder.enterStep
  cases b.childCounts with
  | nil => exact (List.append_nil b.steps).symm
  | cons count outer => rfl

/-- Where a cluster's text stands, by table and by steps. -/
def places (clusters : List Cluster) : List (Nat × List Nat) :=
  clusters.map fun cluster => (cluster.parent, cluster.elementSteps)

theorem places_modify (change : Cluster → Cluster)
    (same : ∀ cluster, (change cluster).parent = cluster.parent ∧
      (change cluster).elementSteps = cluster.elementSteps)
    (i : Nat) (clusters : List Cluster) : places (clusters.modify i change) = places clusters := by
  induction clusters generalizing i with
  | nil => simp [places]
  | cons cluster rest induction =>
      cases i with
      | zero => simp [places, same cluster]
      | succ i => simpa [places] using induction i

theorem places_push_chars (cluster : Nat) (text : Text) (b : Builder) :
    places (text.foldl (Builder.pushChar cluster) b).clusters = places b.clusters := by
  have counted := places_modify (fun c => { c with normLen := c.normLen + 1 })
    (fun _ => ⟨rfl, rfl⟩) cluster
  induction text generalizing b with
  | nil => rfl
  | cons symbol rest induction =>
      refine (induction _).trans ?_
      unfold Builder.pushChar
      dsimp only
      split_ifs <;> first | rfl | exact counted b.clusters

theorem places_flag_markup (b : Builder) : places b.flagMarkup.clusters = places b.clusters := by
  unfold Builder.flagMarkup
  cases b.openCluster with
  | none => rfl
  | some i =>
      exact places_modify (fun c => { c with markupInside := true }) (fun _ => ⟨rfl, rfl⟩) i
        b.clusters

/-- Text in the body goes to a cluster that is there, or to a new one in the open element. -/
theorem places_chars (text : Text) (sourceBytes : Nat) (b : Builder) (inBody : b.bodyDepth ≠ 0) :
    places (b.chars text sourceBytes).clusters = places b.clusters ∨
      places (b.chars text sourceBytes).clusters =
        places b.clusters ++ [(b.open.headD 0, b.steps)] := by
  have filled : places (b.chars text sourceBytes).clusters = places b.ensureCluster.2.clusters := by
    have extended := places_modify (Builder.extendCluster text sourceBytes)
      (fun _ => ⟨rfl, rfl⟩) b.ensureCluster.1 b.ensureCluster.2.clusters
    rw [Builder.chars, if_neg inBody]
    exact (places_push_chars _ text _).trans extended
  rw [filled]
  cases closed : b.openCluster with
  | some i =>
      left
      rw [Builder.ensureCluster, closed]
  | none =>
      right
      unfold Builder.ensureCluster Builder.takePendingMarkup
      rw [closed]
      dsimp only
      split_ifs <;> simp [places]

structure Indexed (b : Builder) (r : Reading) : Prop where
  tiled : Tiled b r
  shaped : Shaped b r
  depths : b.open.length = b.childCounts.length
  bound : ∀ index ∈ b.open, index < b.elements.length
  parents : ∀ place ∈ places b.clusters, place.1 < b.elements.length

namespace Indexed

variable {b : Builder} {r : Reading}

theorem innermost (indexed : Indexed b r) (inBody : b.bodyDepth ≠ 0) :
    ∃ index outer, b.open = index :: outer := by
  have nested := indexed.shaped.bodyDepth
  have counts := indexed.shaped.childCounts
  have depths := indexed.depths
  cases shape : b.open with
  | nil =>
      rw [shape, List.length_nil] at depths
      omega
  | cons index outer => exact ⟨index, outer, rfl⟩

theorem congr {b' : Builder} {r' : Reading} (indexed : Indexed b r) (tiled : Tiled b' r')
    (shaped : Shaped b' r') (same : SameTags b b')
    (parents : ∀ place ∈ places b'.clusters, place.1 < b.elements.length) : Indexed b' r' where
  tiled := tiled
  shaped := shaped
  depths := by rw [same.open, same.childCounts, indexed.depths]
  bound := by
    rw [same.open, same.elements]
    exact indexed.bound
  parents := by rwa [same.elements]

theorem keeps : Keeps Indexed where
  start b r localName qname id indexed := by
    obtain ⟨tiled, shaped, depths, bound, parents⟩ := indexed
    obtain ⟨tiledNext, shapedNext⟩ := Shaped.keeps.start b r localName qname id ⟨tiled, shaped⟩
    rw [Builder.element_start_eq] at tiledNext shapedNext ⊢
    refine ⟨tiledNext, shapedNext, by simp [depths], ?_, ?_⟩
    · intro index member
      rw [List.length_append, List.length_singleton]
      rcases List.mem_cons.mp member with rfl | before
      · exact Nat.lt_succ_self _
      · exact Nat.lt_succ_of_lt (bound index before)
    · intro place member
      rw [List.length_append, List.length_singleton]
      exact Nat.lt_succ_of_lt (parents place member)
  close b r indexed := by
    obtain ⟨tiled, shaped, depths, bound, parents⟩ := indexed
    obtain ⟨tiledNext, shapedNext⟩ := Shaped.keeps.close b r ⟨tiled, shaped⟩
    rw [Builder.element_end_eq] at tiledNext shapedNext ⊢
    exact ⟨tiledNext, shapedNext, by simp [depths],
      fun index member => bound index (List.mem_of_mem_tail member), parents⟩
  text b r decoded sourceBytes indexed := by
    obtain ⟨tiled, shaped⟩ :=
      Shaped.keeps.text b r decoded sourceBytes ⟨indexed.tiled, indexed.shaped⟩
    apply indexed.congr tiled shaped (.chars ..)
    by_cases inBody : b.bodyDepth = 0
    · rw [Builder.chars, if_pos inBody]
      exact indexed.parents
    · obtain ⟨index, outer, shape⟩ := indexed.innermost inBody
      rcases places_chars decoded sourceBytes b inBody with same | fresh
      · rw [same]
        exact indexed.parents
      · rw [fresh]
        intro place member
        rcases List.mem_append.mp member with before | last
        · exact indexed.parents place before
        · rw [List.mem_singleton.mp last, shape]
          exact indexed.bound index (by simp [shape])
  flag b r indexed := by
    obtain ⟨tiled, shaped⟩ := Shaped.keeps.flag b r ⟨indexed.tiled, indexed.shaped⟩
    apply indexed.congr tiled shaped (.flag_markup b)
    rw [places_flag_markup]
    exact indexed.parents
  pending b r indexed := by
    obtain ⟨tiled, shaped⟩ := Shaped.keeps.pending b r ⟨indexed.tiled, indexed.shaped⟩
    exact indexed.congr tiled shaped ⟨rfl, rfl, rfl, rfl⟩ indexed.parents

end Indexed

theorem walk_indexed (events : List Event) : Indexed (walk events) (read events) :=
  Indexed.keeps.walk
    { tiled := walk_tiled []
      shaped := by constructor <;> simp
      depths := rfl
      bound := by simp
      parents := by simp [places] }
    events

/-- The element of an index of the table opened at these steps: while it is open the walk below
it is at steps that extend them, and the text in it is addressed by them. -/
structure OpenedAt (index : Nat) (steps : List Nat) (b : Builder) (r : Reading) : Prop where
  indexed : Indexed b r
  listed : index < b.elements.length
  stands : ∀ depth, b.open[depth]? = some index →
    ((b.childCounts.drop (depth + 1)).map (2 * ·)).reverse = steps
  holds : ∀ place ∈ places b.clusters, place.1 = index → place.2 = steps

namespace OpenedAt

variable {index : Nat} {steps : List Nat} {b : Builder} {r : Reading}

theorem congr {b' : Builder} {r' : Reading} (opened : OpenedAt index steps b r)
    (indexed : Indexed b' r') (same : SameTags b b')
    (holds : ∀ place ∈ places b'.clusters, place.1 = index → place.2 = steps) :
    OpenedAt index steps b' r' where
  indexed := indexed
  listed := by
    rw [same.elements]
    exact opened.listed
  stands := by
    rw [same.open, same.childCounts]
    exact opened.stands
  holds := holds

theorem keeps (index : Nat) (steps : List Nat) : Keeps (OpenedAt index steps) where
  start b r localName qname id opened := by
    have indexed := Indexed.keeps.start b r localName qname id opened.indexed
    rw [Builder.element_start_eq] at indexed ⊢
    refine ⟨indexed, by simpa using Nat.lt_succ_of_lt opened.listed, ?_, opened.holds⟩
    intro depth here
    cases depth with
    | zero => exact absurd (Option.some.inj here) opened.listed.ne'
    | succ depth =>
        rw [← opened.stands depth here, List.drop_succ_cons]
        cases b.childCounts <;> rfl
  close b r opened := by
    have indexed := Indexed.keeps.close b r opened.indexed
    rw [Builder.element_end_eq] at indexed ⊢
    refine ⟨indexed, opened.listed, ?_, opened.holds⟩
    intro depth here
    rw [List.getElem?_tail] at here
    rw [← opened.stands (depth + 1) here, ← List.drop_one, List.drop_drop, Nat.add_comm 1]
  text b r decoded sourceBytes opened := by
    have indexed := Indexed.keeps.text b r decoded sourceBytes opened.indexed
    apply opened.congr indexed (.chars ..)
    by_cases inBody : b.bodyDepth = 0
    · rw [Builder.chars, if_pos inBody]
      exact opened.holds
    · obtain ⟨innermost, outer, shape⟩ := opened.indexed.innermost inBody
      rcases places_chars decoded sourceBytes b inBody with same | fresh
      · rw [same]
        exact opened.holds
      · rw [fresh]
        intro place member within
        rcases List.mem_append.mp member with before | last
        · exact opened.holds place before within
        · -- A new cluster stands in the innermost open element.
          rw [List.mem_singleton.mp last, shape] at within ⊢
          have here := opened.stands 0 (by rw [shape, ← within]; rfl)
          rw [← here, Nat.zero_add, List.drop_one]
          exact opened.indexed.shaped.steps
  flag b r opened := by
    have indexed := Indexed.keeps.flag b r opened.indexed
    apply opened.congr indexed (.flag_markup b)
    rw [places_flag_markup]
    exact opened.holds
  pending b r opened :=
    opened.congr (Indexed.keeps.pending b r opened.indexed) ⟨rfl, rfl, rfl, rfl⟩ opened.holds

theorem start (indexed : Indexed b r) (localName qname : Text) (id : Option Text) :
    OpenedAt b.elements.length b.enterStep.steps (b.elementStart localName qname id)
      (r.start localName id) := by
  have started := Indexed.keeps.start b r localName qname id indexed
  rw [Builder.element_start_eq] at started ⊢
  refine ⟨started, by simp, ?_, ?_⟩
  · intro depth here
    cases depth with
    | zero =>
        rw [enter_step_steps, indexed.shaped.steps]
        cases b.childCounts <;> simp [Builder.nextStep, Nat.mul_comm]
    | succ depth => exact absurd (indexed.bound _ (List.mem_of_getElem? here)) (lt_irrefl _)
  · intro place member within
    exact absurd within (indexed.parents place member).ne

end OpenedAt

/-- The text directly inside an element is addressed by the steps the walk entered with it. -/
theorem element_steps_of_parent (before : List Event) (event : Event) (after : List Event)
    (opens : ∃ localName qname, (∃ id, event = .start localName qname id) ∨
      event = .empty localName qname)
    (cluster : Cluster) (member : cluster ∈ (indexFile (before ++ event :: after)).clusters)
    (inside : cluster.parent = (walk before).elements.length) :
    cluster.elementSteps = (walk before).enterStep.steps := by
  have indexed := walk_indexed before
  have opened : OpenedAt (walk before).elements.length (walk before).enterStep.steps
      ((walk before).event event) ((read before).event event) := by
    obtain ⟨localName, qname, ⟨id, rfl⟩ | rfl⟩ := opens
    · exact .start indexed localName qname id
    · exact (OpenedAt.keeps _ _).close _ _ (.start indexed localName qname none)
  have whole := (OpenedAt.keeps _ _).events _ _ after opened
  have final : after.foldl Builder.event ((walk before).event event) =
      walk (before ++ event :: after) := by
    simp [walk]
  rw [final] at whole
  exact whole.holds _ (List.mem_map.mpr ⟨cluster, member, rfl⟩) inside

end Omnibus.KoboPosition
