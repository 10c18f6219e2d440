import Mathlib.Data.Finset.Card
import Mathlib.Data.List.AList
import Mathlib.Data.List.Sort
import Omnibus.KoboPosition.Parents

/-!
# Table-of-contents anchors

`ebook/toc.rs`: chapters that share a spine document are told apart by the element steps of their
fragments. `element_paths` counts the steps in a walk of its own, which reads nothing but tags and
stops once every id is found. Its steps are those the position walk is at.
-/

namespace Omnibus.KoboPosition

open Omnibus.Library.Strings

/-- An event as the reader gives it: a self-closing tag has its id, which the position walk does
not ask for. -/
inductive ReaderEvent where
  | start (localName qname : Text) (id : Option Text)
  | empty (localName qname : Text) (id : Option Text)
  | close
  | text (decoded : Text) (sourceBytes : Nat)
  | cdata (decoded : Text) (sourceBytes : Nat)
  | generalRef (name : Text) (charRef : Option Char)
  | comment
  | pi
  | decl
  | docType
  deriving DecidableEq, Repr

namespace ReaderEvent

def walked : ReaderEvent → Event
  | .start localName qname id => .start localName qname id
  | .empty localName qname _ => .empty localName qname
  | .close => .close
  | .text decoded sourceBytes => .text decoded sourceBytes
  | .cdata decoded sourceBytes => .cdata decoded sourceBytes
  | .generalRef name charRef => .generalRef name charRef
  | .comment => .comment
  | .pi => .pi
  | .decl => .decl
  | .docType => .docType

/-- `element_id` of the tag the event opens. -/
def elementId : ReaderEvent → Option Text
  | .start _ _ id => id
  | .empty _ _ id => id
  | _ => none

end ReaderEvent

abbrev Paths := AList fun _ : Text => Text

/-- The locals of `element_paths`: the element children seen so far at each open depth, the
innermost first, the path to the open element, and what was found. -/
structure PathScan where
  counts : List Nat := []
  path : List Nat := []
  found : Paths := ∅

namespace PathScan

/-- `entry(id).or_insert(steps)`. -/
def orInsert (id steps : Text) (found : Paths) : Paths :=
  if (found.lookup id).isSome then found else found.insert id steps

def descend (isOpen : Bool) (step : Nat) (scan : PathScan) : PathScan :=
  if isOpen then { scan with counts := 0 :: scan.counts, path := scan.path ++ [step] } else scan

/-- One tag of the loop, and whether the loop goes on. The root is the path's origin, not a step
on it. -/
def element (ids : Finset Text) (id : Option Text) (isOpen : Bool) (scan : PathScan) :
    Bool × PathScan :=
  match scan.counts with
  | [] => (true, if isOpen then { scan with counts := [0] } else scan)
  | count :: outer =>
      let step := (count + 1) * 2
      let scan := { scan with counts := (count + 1) :: outer }
      match id.filter (· ∈ ids) with
      | some id =>
          let found := orInsert id (stepPath (scan.path ++ [step])) scan.found
          let scan := { scan with found }
          if found.entries.length = ids.card then (false, scan)
          else (true, descend isOpen step scan)
      | none => (true, descend isOpen step scan)

def leave (scan : PathScan) : PathScan :=
  { scan with counts := scan.counts.tail, path := scan.path.dropLast }

def event (ids : Finset Text) (scan : PathScan) : ReaderEvent → Bool × PathScan
  | .start _ _ id => element ids id true scan
  | .empty _ _ id => element ids id false scan
  | .close => (true, leave scan)
  | _ => (true, scan)

end PathScan

/-- The loop of `element_paths` over the events read before the end or the first error. -/
def elementPathsFrom (ids : Finset Text) : List ReaderEvent → PathScan → Paths
  | [], scan => scan.found
  | event :: rest, scan =>
      let (goesOn, scan) := scan.event ids event
      if goesOn then elementPathsFrom ids rest scan else scan.found

def elementPaths (events : List ReaderEvent) (ids : Finset Text) : Paths :=
  elementPathsFrom ids events {}

/-! ## The elements a document carries -/

/-- The position walk before the event that follows `before`. -/
def walkedTo (before : List ReaderEvent) : Builder := walk (before.map ReaderEvent.walked)

/-- The steps the position walk is at inside the element that `before` leads up to. -/
def stepsAt (before : List ReaderEvent) : List Nat := (walkedTo before).enterStep.steps

/-- The event after `before` opens an element below the root with this id. -/
structure Carries (id : Text) (before : List ReaderEvent) (event : ReaderEvent) : Prop where
  named : event.elementId = some id
  below : (walkedTo before).childCounts ≠ []

/-- The first element below the root with this id is the one `before` leads up to. -/
structure FirstCarries (events : List ReaderEvent) (id : Text) (before : List ReaderEvent) :
    Prop where
  carries : ∃ event after, events = before ++ event :: after ∧ Carries id before event
  first : ∀ earlier event between, before = earlier ++ event :: between →
    ¬Carries id earlier event

def carried (b : Builder) (event : ReaderEvent) : List (Text × List Nat) :=
  if b.childCounts = [] then [] else event.elementId.toList.map fun id => (id, b.enterStep.steps)

/-- The ids of the elements below the root and their steps, in document order. -/
def carriedFrom (b : Builder) : List ReaderEvent → List (Text × List Nat)
  | [] => []
  | event :: rest => carried b event ++ carriedFrom (b.event event.walked) rest

/-! ## One event of both walks -/

/-- Both walks count the same children and are at the same steps. -/
structure Agrees (scan : PathScan) (b : Builder) : Prop where
  counts : scan.counts = b.childCounts
  path : scan.path = b.steps
  depth : b.steps.length = b.childCounts.length - 1

namespace Agrees

variable {scan : PathScan} {b : Builder}

theorem congr {b' : Builder} (agrees : Agrees scan b) (same : SameTags b b') : Agrees scan b' where
  counts := agrees.counts.trans same.childCounts.symm
  path := agrees.path.trans same.steps.symm
  depth := by rw [same.steps, same.childCounts, agrees.depth]

theorem leave (agrees : Agrees scan b) : Agrees scan.leave b.elementEnd := by
  obtain ⟨counts, path, depth⟩ := agrees
  rw [Builder.element_end_eq]
  refine ⟨by rw [PathScan.leave, counts], ?_, ?_⟩
  · simp only [PathScan.leave, path]
    split_ifs with last
    · rfl
    · have empty : b.steps = [] := by
        rw [not_not] at last
        have short := congrArg List.length last
        rw [List.length_tail, List.length_nil] at short
        exact List.length_eq_zero_iff.mp (depth.trans short)
      rw [empty, List.dropLast_nil]
  · simp only [List.length_tail]
    split_ifs with last
    · rw [List.length_dropLast, depth]
    · rw [not_not] at last
      have short := congrArg List.length last
      rw [List.length_tail, List.length_nil] at short
      omega

theorem enter (agrees : Agrees scan b) (localName qname : Text) (id : Option Text) :
    Agrees
      { scan with
        counts := 0 :: scan.counts.modifyHead (· + 1)
        path := scan.path ++ Builder.nextStep scan.counts }
      (b.elementStart localName qname id) := by
  obtain ⟨counts, path, depth⟩ := agrees
  rw [Builder.element_start_eq]
  refine ⟨by simp only [counts], by simp only [counts, path], ?_⟩
  cases childCounts : b.childCounts with
  | nil => simpa [childCounts, Builder.nextStep] using depth
  | cons count outer => simp [Builder.nextStep, depth, childCounts]

end Agrees

/-- What is found once the element at a path has been looked at. -/
def recorded (ids : Finset Text) (id : Option Text) (path : List Nat) (found : Paths) : Paths :=
  match id.filter (· ∈ ids) with
  | some id => PathScan.orInsert id (stepPath path) found
  | none => found

theorem lookup_or_insert (id steps other : Text) (found : Paths) :
    (PathScan.orInsert id steps found).lookup other =
      (found.lookup other).or (if other = id then some steps else none) := by
  unfold PathScan.orInsert
  by_cases same : other = id
  · subst same
    cases present : found.lookup other with
    | some before => simp [present]
    | none => simp
  · split_ifs
    · simp
    · rw [AList.lookup_insert_ne same, Option.or_none]

theorem lookup_recorded (ids : Finset Text) (id : Option Text) (path : List Nat) (found : Paths)
    (other : Text) :
    (recorded ids id path found).lookup other =
      (found.lookup other).or (if other ∈ ids ∧ id = some other then some (stepPath path)
        else none) := by
  unfold recorded
  cases id with
  | none => simp
  | some id =>
      by_cases among : id ∈ ids
      · have kept : (some id).filter (· ∈ ids) = some id := by simp [among]
        simp only [kept, lookup_or_insert, Option.some.injEq]
        congr 1
        by_cases same : other = id
        · subst same
          simp [among]
        · simp [same, Ne.symm same]
      · have dropped : (some id).filter (· ∈ ids) = none := by simp [among]
        have apart : ¬(other ∈ ids ∧ some id = some other) := by
          rintro ⟨member, same⟩
          exact among (Option.some.inj same ▸ member)
        rw [dropped, if_neg apart, Option.or_none]

namespace PathScan

variable {ids : Finset Text} {id : Option Text} {isOpen : Bool} {scan : PathScan}

theorem element_root (root : scan.counts = []) :
    element ids id isOpen scan = (true, if isOpen then { scan with counts := [0] } else scan) := by
  rw [element, root]

/-- A tag below the root records its element, and stops the loop only once all are found. -/
theorem element_below {count : Nat} {outer : List Nat} (counts : scan.counts = count :: outer) :
    (element ids id isOpen scan).2.found =
        recorded ids id (scan.path ++ [(count + 1) * 2]) scan.found ∧
      ((element ids id isOpen scan).1 = true →
        (element ids id isOpen scan).2 = descend isOpen ((count + 1) * 2)
          { scan with
            counts := (count + 1) :: outer
            found := recorded ids id (scan.path ++ [(count + 1) * 2]) scan.found }) ∧
      ((element ids id isOpen scan).1 = false →
        (element ids id isOpen scan).2.found.entries.length = ids.card) := by
  have descended : ∀ next : PathScan, (descend isOpen ((count + 1) * 2) next).found = next.found :=
    fun next => by cases isOpen <;> rfl
  unfold element recorded
  rw [counts]
  cases id.filter (· ∈ ids) with
  | none => simp [descended]
  | some id =>
      dsimp only
      split_ifs with full
      · simp [full]
      · simp [descended]

theorem element_stops
    (stops : (element ids id isOpen scan).1 = false) :
    (element ids id isOpen scan).2.found.entries.length = ids.card := by
  cases counts : scan.counts with
  | nil =>
      rw [element_root counts] at stops
      cases stops
  | cons count outer => exact (element_below counts).2.2 stops

/-- Where the loop goes on from a tag, it stands where the position walk does inside it. -/
theorem element_goes_on
    (goesOn : (element ids id isOpen scan).1 = true) :
    (element ids id isOpen scan).2.counts =
        (if isOpen then 0 :: scan.counts.modifyHead (· + 1) else
          scan.counts.modifyHead (· + 1)) ∧
      (element ids id isOpen scan).2.path =
        (if isOpen then scan.path ++ Builder.nextStep scan.counts else scan.path) := by
  cases counts : scan.counts with
  | nil =>
      rw [element_root counts]
      cases isOpen <;> simp [counts, Builder.nextStep]
  | cons count outer =>
      rw [(element_below counts).2.1 goesOn]
      cases isOpen <;> simp [descend, Builder.nextStep]

end PathScan

/-- What an event adds to what is found, and how the loop goes on from it. -/
structure Advances (ids : Finset Text) (scan : PathScan) (b : Builder) (event : ReaderEvent) :
    Prop where
  found : ∀ id, (scan.event ids event).2.found.lookup id = (scan.found.lookup id).or
    (if id ∈ ids then ((carried b event).lookup id).map stepPath else none)
  goesOn : (scan.event ids event).1 = true →
    Agrees (scan.event ids event).2 (b.event event.walked)
  stops : (scan.event ids event).1 = false →
    (scan.event ids event).2.found.entries.length = ids.card

namespace Agrees

variable {scan : PathScan} {b : Builder} (agrees : Agrees scan b) (ids : Finset Text)

include agrees

theorem element_found (id : Option Text) (isOpen : Bool) (other : Text) :
    (PathScan.element ids id isOpen scan).2.found.lookup other = (scan.found.lookup other).or
      (if other ∈ ids then ((if b.childCounts = [] then [] else
        id.toList.map fun id => (id, b.enterStep.steps)).lookup other).map stepPath else none) := by
  cases childCounts : b.childCounts with
  | nil =>
      rw [PathScan.element_root (agrees.counts.trans childCounts)]
      cases isOpen <;> simp
  | cons count outer =>
      have below := @PathScan.element_below ids id isOpen scan count outer
        (agrees.counts.trans childCounts)
      rw [below.1, lookup_recorded, enter_step_steps, childCounts, agrees.path]
      congr 1
      cases id with
      | none => simp
      | some id =>
          by_cases same : other = id
          · subst same
            by_cases among : other ∈ ids <;> simp [among, Builder.nextStep]
          · simp [same, Ne.symm same]

theorem advances_quiet (event : ReaderEvent) (still : scan.event ids event = (true, scan))
    (nameless : event.elementId = none) (same : SameTags b (b.event event.walked)) :
    Advances ids scan b event where
  found id := by
    have nothing : carried b event = [] := by simp [carried, nameless]
    simp [still, nothing]
  goesOn _ := by
    rw [still]
    exact agrees.congr same
  stops stops := by
    rw [still] at stops
    cases stops

theorem of_same {next : PathScan} (counts : next.counts = scan.counts)
    (path : next.path = scan.path) : Agrees next b :=
  ⟨counts.trans agrees.counts, path.trans agrees.path, agrees.depth⟩

theorem advances (event : ReaderEvent) : Advances ids scan b event := by
  cases event with
  | start localName qname id =>
      refine ⟨agrees.element_found ids id true, fun goesOn => ?_, PathScan.element_stops⟩
      obtain ⟨counts, path⟩ := PathScan.element_goes_on goesOn
      exact (agrees.enter localName qname id).of_same counts path
  | empty localName qname id =>
      refine ⟨agrees.element_found ids id false, fun goesOn => ?_, PathScan.element_stops⟩
      obtain ⟨counts, path⟩ := PathScan.element_goes_on goesOn
      apply (agrees.enter localName qname none).leave.of_same counts
      refine path.trans ?_
      cases childCounts : scan.counts with
      | nil =>
          -- At the root there is no step to take back.
          have root : scan.path = [] := by
            have depth := agrees.depth
            rw [← agrees.path, ← agrees.counts, childCounts] at depth
            exact List.length_eq_zero_iff.mp depth
          simp [PathScan.leave, Builder.nextStep, root]
      | cons count outer => simp [PathScan.leave, Builder.nextStep]
  | close =>
      exact ⟨fun id => by simp [PathScan.event, PathScan.leave, carried, ReaderEvent.elementId],
        fun _ => agrees.leave, by simp [PathScan.event]⟩
  | text decoded sourceBytes => exact agrees.advances_quiet ids _ rfl rfl (.chars ..)
  | cdata decoded sourceBytes =>
      exact agrees.advances_quiet ids _ rfl rfl ((SameTags.chars ..).trans (.flag_markup _))
  | generalRef name charRef => exact agrees.advances_quiet ids _ rfl rfl (.general_ref ..)
  | comment => exact agrees.advances_quiet ids _ rfl rfl (.flag_markup b)
  | pi => exact agrees.advances_quiet ids _ rfl rfl (.flag_markup b)
  | decl => exact agrees.advances_quiet ids _ rfl rfl (.refl b)
  | docType => exact agrees.advances_quiet ids _ rfl rfl (.refl b)

end Agrees

/-! ## The whole document -/

section Run

variable {ids : Finset Text}

theorem all_found (found : Paths) (inside : ∀ id, (found.lookup id).isSome → id ∈ ids)
    (full : found.entries.length = ids.card) (id : Text) (asked : id ∈ ids) :
    (found.lookup id).isSome := by
  have within : found.keys.toFinset ⊆ ids := by
    intro key member
    exact inside key (AList.lookup_isSome.mpr (AList.mem_keys.mpr (List.mem_toFinset.mp member)))
  have count : found.keys.toFinset.card = ids.card := by
    rw [List.toFinset_card_of_nodup found.keys_nodup, ← full, AList.keys, List.keys,
      List.length_map]
  rw [← Finset.eq_of_subset_of_card_le within count.ge, List.mem_toFinset] at asked
  exact AList.lookup_isSome.mpr (AList.mem_keys.mpr asked)

/-- From any point of a document, the loop finds what it has, and of what the rest carries the
first under each id. -/
theorem element_paths_from (rest : List ReaderEvent) (scan : PathScan) (b : Builder)
    (agrees : Agrees scan b) (inside : ∀ id, (scan.found.lookup id).isSome → id ∈ ids)
    (id : Text) :
    (elementPathsFrom ids rest scan).lookup id = (scan.found.lookup id).or
      (if id ∈ ids then ((carriedFrom b rest).lookup id).map stepPath else none) := by
  induction rest generalizing scan b with
  | nil => simp [elementPathsFrom, carriedFrom]
  | cons event rest induction =>
      obtain ⟨found, goesOn, stops⟩ := agrees.advances ids event
      have insideNext : ∀ id, ((scan.event ids event).2.found.lookup id).isSome → id ∈ ids := by
        intro id present
        by_contra outside
        rw [found, if_neg outside, Option.or_none] at present
        exact outside (inside id present)
      -- What the event carries comes before what the rest does.
      have whole : (scan.found.lookup id).or
          (if id ∈ ids then ((carriedFrom b (event :: rest)).lookup id).map stepPath else none) =
          ((scan.event ids event).2.found.lookup id).or (if id ∈ ids then
            ((carriedFrom (b.event event.walked) rest).lookup id).map stepPath else none) := by
        rw [found, Option.or_assoc]
        congr 1
        split_ifs
        · rw [carriedFrom, List.lookup_append]
          cases (carried b event).lookup id <;> rfl
        · rfl
      rw [whole, elementPathsFrom]
      cases more : (scan.event ids event).1 with
      | true =>
          simp only [more, if_true]
          exact induction _ _ (goesOn more) insideNext
      | false =>
          simp only [more, Bool.false_eq_true, if_false]
          split_ifs with asked
          · have here := all_found _ insideNext (stops more) id asked
            rw [Option.or_of_isSome here]
          · rw [Option.or_none]

theorem element_paths_lookup (events : List ReaderEvent) (id : Text) :
    (elementPaths events ids).lookup id =
      if id ∈ ids then ((carriedFrom {} events).lookup id).map stepPath else none := by
  have start : Agrees {} {} := ⟨rfl, rfl, rfl⟩
  have none : ∀ id, ((({} : PathScan).found).lookup id).isSome → id ∈ ids := by simp
  rw [elementPaths, element_paths_from events {} {} start none]
  simp

theorem walked_to_concat (before : List ReaderEvent) (event : ReaderEvent) :
    walkedTo (before ++ [event]) = (walkedTo before).event event.walked := by
  simp [walkedTo, walk]

theorem lookup_carried (before : List ReaderEvent) (event : ReaderEvent) (id : Text) :
    Carries id before event ∧
        (carried (walkedTo before) event).lookup id = some (stepsAt before) ∨
      ¬Carries id before event ∧ (carried (walkedTo before) event).lookup id = none := by
  by_cases root : (walkedTo before).childCounts = []
  · exact Or.inr ⟨fun carries => carries.below root, by simp [carried, root]⟩
  · cases named : event.elementId with
    | none =>
        refine Or.inr ⟨fun carries => ?_, by simp [carried, named]⟩
        rw [carries.named] at named
        cases named
    | some other =>
        by_cases same : id = other
        · subst same
          exact Or.inl ⟨⟨named, root⟩, by simp [carried, root, named, stepsAt]⟩
        · refine Or.inr ⟨fun carries => ?_, by simp [carried, root, named, same]⟩
          rw [carries.named] at named
          exact same (Option.some.inj named)

/-- What the rest of a document carries under an id is its first element with that id. -/
theorem lookup_carried_from (before rest : List ReaderEvent) (id : Text) :
    (∃ front event after, rest = front ++ event :: after ∧ Carries id (before ++ front) event ∧
        (∀ earlier other between, front = earlier ++ other :: between →
          ¬Carries id (before ++ earlier) other) ∧
        (carriedFrom (walkedTo before) rest).lookup id = some (stepsAt (before ++ front))) ∨
      (∀ front event after, rest = front ++ event :: after → ¬Carries id (before ++ front) event) ∧
        (carriedFrom (walkedTo before) rest).lookup id = none := by
  induction rest generalizing before with
  | nil => exact Or.inr ⟨by simp, rfl⟩
  | cons event rest induction =>
      rw [carriedFrom, List.lookup_append, ← walked_to_concat]
      rcases lookup_carried before event id with ⟨carries, here⟩ | ⟨carriesNot, here⟩
      · refine Or.inl ⟨[], event, rest, rfl, by rwa [List.append_nil], by simp, ?_⟩
        rw [here, List.append_nil, Option.some_or]
      · rw [here, Option.none_or]
        -- The event itself is no such element, so a split begins after it.
        have later : ∀ earlier other between front, event :: front = earlier ++ other :: between →
            (∀ within, front = within ++ other :: between →
              ¬Carries id (before ++ [event] ++ within) other) →
            ¬Carries id (before ++ earlier) other := by
          intro earlier other between front split deeper
          cases earlier with
          | nil =>
              obtain ⟨rfl, -⟩ := List.cons.inj split
              rwa [List.append_nil]
          | cons first within =>
              obtain ⟨rfl, tail⟩ := List.cons.inj split
              simpa using deeper within tail
        rcases induction (before ++ [event]) with
            ⟨front, found, after, rfl, carries, first, lookup⟩ | ⟨none, lookup⟩
        · refine Or.inl ⟨event :: front, found, after, rfl, by simpa using carries, ?_,
            by simpa using lookup⟩
          intro earlier other between split
          exact later earlier other between front split fun within tail =>
            first within other between tail
        · refine Or.inr ⟨fun front found after split => ?_, lookup⟩
          exact later front found after rest split fun within tail => none within found after tail

theorem walked_opens {event : ReaderEvent} {id : Text} (named : event.elementId = some id) :
    ∃ localName qname, (∃ id, event.walked = .start localName qname id) ∨
      event.walked = .empty localName qname := by
  cases event with
  | start localName qname id => exact ⟨localName, qname, Or.inl ⟨id, rfl⟩⟩
  | empty localName qname id => exact ⟨localName, qname, Or.inr rfl⟩
  | _ => cases named

/-- The text directly inside the element that `before` leads up to is addressed by its steps. -/
theorem steps_of_text_inside {events before : List ReaderEvent} {id : Text}
    (first : FirstCarries events id before) (cluster : Cluster)
    (member : cluster ∈ (indexFile (events.map ReaderEvent.walked)).clusters)
    (inside : cluster.parent = (walkedTo before).elements.length) :
    cluster.elementSteps = stepsAt before := by
  obtain ⟨event, after, rfl, carries⟩ := first.carries
  rw [List.map_append, List.map_cons] at member
  exact element_steps_of_parent _ _ _ (walked_opens carries.named) cluster member inside

/-- The first element that carries an id is what is looked up, when there is one. -/
theorem carried_first (events : List ReaderEvent) (id : Text) :
    (∃ before, FirstCarries events id before ∧
        (carriedFrom {} events).lookup id = some (stepsAt before)) ∨
      (∀ before event after, events = before ++ event :: after → ¬Carries id before event) ∧
        (carriedFrom {} events).lookup id = none := by
  rcases lookup_carried_from [] events id with
      ⟨front, event, after, split, carries, first, lookup⟩ | ⟨none, lookup⟩
  · exact Or.inl ⟨front, ⟨⟨event, after, split, carries⟩, first⟩, lookup⟩
  · exact Or.inr ⟨none, lookup⟩

/-- Every id asked for that an element below the root carries is found at the steps of the first
such element, the ones the text directly inside it has, and no other id is found. -/
theorem element_paths_walked (events : List ReaderEvent) (ids : Finset Text) :
    (∀ id ∈ ids, ∀ before event after, events = before ++ event :: after →
        Carries id before event →
          ∃ first, FirstCarries events id first ∧
            (elementPaths events ids).lookup id = some (stepPath (stepsAt first)) ∧
              ∀ cluster ∈ (indexFile (events.map ReaderEvent.walked)).clusters,
                cluster.parent = (walkedTo first).elements.length →
                  cluster.elementSteps = stepsAt first) ∧
      ∀ id path, (elementPaths events ids).lookup id = some path →
        id ∈ ids ∧ ∃ before event after, events = before ++ event :: after ∧
          Carries id before event := by
  constructor
  · intro id asked before event after split carries
    rcases carried_first events id with ⟨first, carriesFirst, lookup⟩ | ⟨none, _⟩
    · refine ⟨first, carriesFirst, ?_, steps_of_text_inside carriesFirst⟩
      rw [element_paths_lookup, if_pos asked, lookup, Option.map_some]
    · exact absurd carries (none before event after split)
  · intro id path found
    rw [element_paths_lookup] at found
    split_ifs at found with asked
    rcases carried_first events id with ⟨first, carriesFirst, _⟩ | ⟨_, lookup⟩
    · obtain ⟨event, after, split, carries⟩ := carriesFirst.carries
      exact ⟨asked, first, event, after, split, carries⟩
    · rw [lookup] at found
      cases found

end Run

/-- Two elements of one id, the first of them self-closing: the root's id is not looked at. -/
example :
    (elementPaths
      [.start [] [] (some ['r']), .empty [] [] none, .start [] [] none, .empty [] [] (some ['a']),
        .close, .start [] [] (some ['a']), .close, .close] {['a'], ['r']}).entries =
      [⟨['a'], ['/', '4', '/', '2']⟩] := by
  decide

/-! ## The chapters of a shared document -/

structure TocChapter where
  href : Text
  spineIndex : Int
  anchorPath : Option Text := none
  deriving DecidableEq, Repr

namespace TocChapter

def fragment (chapter : TocChapter) : Option Text := (splitOnce '#' chapter.href).map Prod.snd

/-- `per_spine`'s count is above one. -/
def sharedIn (chapters : List TocChapter) (spineIndex : Int) : Bool :=
  1 < (chapters.map (·.spineIndex)).count spineIndex

def shared (chapters : List TocChapter) : List Int :=
  ((chapters.map (·.spineIndex)).dedup.filter (sharedIn chapters)).insertionSort (· ≤ ·)

def fragmentsAt (chapters : List TocChapter) (spineIndex : Int) : Finset Text :=
  ((chapters.filter (·.spineIndex = spineIndex)).filterMap fragment).toFinset

def anchored (paths : Paths) (chapter : TocChapter) : TocChapter :=
  { chapter with anchorPath := chapter.fragment.bind paths.lookup }

def placeDocument (document : Int → Option (List ReaderEvent)) (chapters : List TocChapter)
    (spineIndex : Int) : List TocChapter :=
  match document spineIndex with
  | none => chapters
  | some events =>
      let paths := elementPaths events (fragmentsAt chapters spineIndex)
      chapters.map fun chapter =>
        if chapter.spineIndex = spineIndex then anchored paths chapter else chapter

/-- `place_shared_anchors`, over the documents the archive gives at a spine index. -/
def placeSharedAnchors (document : Int → Option (List ReaderEvent)) (chapters : List TocChapter) :
    List TocChapter :=
  (shared chapters).foldl (placeDocument document) chapters

variable {document : Int → Option (List ReaderEvent)}

def anchorOf (events : List ReaderEvent) (fragment : Text) : Option Text :=
  ((carriedFrom {} events).lookup fragment).map stepPath

/-- The chapter once the documents of these spine indices are placed. -/
def placedBy (document : Int → Option (List ReaderEvent)) (spineIndices : List Int)
    (chapter : TocChapter) : TocChapter :=
  if chapter.spineIndex ∈ spineIndices then
    match document chapter.spineIndex with
    | none => chapter
    | some events => { chapter with anchorPath := chapter.fragment.bind (anchorOf events) }
  else chapter

theorem anchored_of_fragments (chapters : List TocChapter) (events : List ReaderEvent)
    (chapter : TocChapter) (member : chapter ∈ chapters) :
    anchored (elementPaths events (fragmentsAt chapters chapter.spineIndex)) chapter =
      { chapter with anchorPath := chapter.fragment.bind (anchorOf events) } := by
  unfold anchored
  congr 1
  cases named : chapter.fragment with
  | none => rfl
  | some fragment =>
      have asked : fragment ∈ fragmentsAt chapters chapter.spineIndex := by
        rw [fragmentsAt, List.mem_toFinset, List.mem_filterMap]
        exact ⟨chapter, List.mem_filter.mpr ⟨member, by simp⟩, named⟩
      rw [Option.bind_some, element_paths_lookup, if_pos asked]
      rfl

theorem place_document_eq (chapters : List TocChapter) (spineIndex : Int) :
    placeDocument document chapters spineIndex = chapters.map (placedBy document [spineIndex]) := by
  unfold placeDocument placedBy
  cases here : document spineIndex with
  | none =>
      refine ((List.map_congr_left ?_).trans (List.map_id chapters)).symm
      intro chapter _
      split_ifs with same
      · rw [List.mem_singleton] at same
        rw [same, here]
        rfl
      · rfl
  | some events =>
      apply List.map_congr_left
      intro chapter member
      by_cases same : chapter.spineIndex = spineIndex
      · subst same
        rw [if_pos rfl, if_pos (List.mem_singleton_self _), here]
        exact anchored_of_fragments chapters events chapter member
      · rw [if_neg same, if_neg (by simpa using same)]

@[simp] theorem placed_by_spine_index (spineIndices : List Int) (chapter : TocChapter) :
    (placedBy document spineIndices chapter).spineIndex = chapter.spineIndex := by
  unfold placedBy
  split_ifs
  · split <;> rfl
  · rfl

theorem placed_by_of_not_mem {spineIndices : List Int} {chapter : TocChapter}
    (outside : chapter.spineIndex ∉ spineIndices) :
    placedBy document spineIndices chapter = chapter := if_neg outside

theorem placed_by_cons (spineIndex : Int) (rest : List Int) (fresh : spineIndex ∉ rest)
    (chapter : TocChapter) :
    placedBy document rest (placedBy document [spineIndex] chapter) =
      placedBy document (spineIndex :: rest) chapter := by
  by_cases same : chapter.spineIndex = spineIndex
  · have outside : (placedBy document [spineIndex] chapter).spineIndex ∉ rest := by
      rwa [placed_by_spine_index, same]
    rw [placed_by_of_not_mem outside]
    simp only [placedBy, same, List.mem_cons_self, if_true]
  · have outside : chapter.spineIndex ∉ [spineIndex] := by simpa using same
    rw [placed_by_of_not_mem outside]
    simp only [placedBy, List.mem_cons, same, false_or]

theorem place_documents_eq (spineIndices : List Int) (distinct : spineIndices.Nodup)
    (chapters : List TocChapter) :
    spineIndices.foldl (placeDocument document) chapters =
      chapters.map (placedBy document spineIndices) := by
  induction spineIndices generalizing chapters with
  | nil =>
      refine ((List.map_congr_left ?_).trans (List.map_id chapters)).symm
      intro chapter _
      exact placed_by_of_not_mem List.not_mem_nil
  | cons spineIndex rest induction =>
      obtain ⟨fresh, distinctRest⟩ := List.nodup_cons.mp distinct
      rw [List.foldl_cons, induction distinctRest, place_document_eq, List.map_map]
      apply List.map_congr_left
      intro chapter _
      exact placed_by_cons spineIndex rest fresh chapter

/-- Every chapter that shares its document, where that is there, is anchored at the first element
its fragment names, and every other chapter is left as it was. -/
theorem place_shared_anchors_eq (chapters : List TocChapter) :
    placeSharedAnchors document chapters = chapters.map fun chapter =>
      if sharedIn chapters chapter.spineIndex then
        match document chapter.spineIndex with
        | none => chapter
        | some events => { chapter with anchorPath := chapter.fragment.bind (anchorOf events) }
      else chapter := by
  have distinct : (shared chapters).Nodup :=
    (List.perm_insertionSort _ _).nodup_iff.mpr ((List.nodup_dedup _).filter _)
  rw [placeSharedAnchors, place_documents_eq _ distinct]
  apply List.map_congr_left
  intro chapter member
  have listed : chapter.spineIndex ∈ shared chapters ↔
      sharedIn chapters chapter.spineIndex = true := by
    rw [shared, (List.perm_insertionSort _ _).mem_iff, List.mem_filter, List.mem_dedup]
    exact and_iff_right (List.mem_map.mpr ⟨chapter, member, rfl⟩)
  simp only [placedBy, listed]

end TocChapter

end Omnibus.KoboPosition
