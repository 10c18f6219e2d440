import Mathlib.Data.List.Nodup
import Omnibus.Downloads.Install

/-!
# The swap, path by path

`DownloadManager.Swap` and `swapIntoPlace` over whatever paths a plan names: one loop that keeps
the steps placed so far and replays them backwards when a move fails. The swap of the install,
which sees a folder under each prefix, is this one on the paths of its names.
-/

namespace Omnibus.Downloads.Paths

open Omnibus.Library.Strings

/-- One file's part in an install, and whether a previous copy was actually moved aside. -/
structure Swap (Path : Type) where
  incoming : Path
  destination : Path
  superseded : Path
  replaced : Bool := false
  deriving DecidableEq, Repr

inductive MoveError where
  | refused
  | missing
  | occupied
  deriving DecidableEq, Repr

abbrev Files (Path Content : Type) := Path → Option Content

/-- The removals and the moves, by source and target, that the device refuses. -/
structure Faults (Path : Type) where
  remove : Path → Bool
  move : Path → Path → Bool

def Swap.mark {Path : Type} (replaced : Bool) (step : Swap Path) : Swap Path :=
  { step with replaced }

def Swap.paths {Path : Type} (step : Swap Path) : List Path :=
  [step.incoming, step.destination, step.superseded]

section Model

variable {Path Content : Type} [DecidableEq Path] (faults : Faults Path)

def relocate (source target : Path) (files : Files Path Content) : Files Path Content :=
  Function.update (Function.update files source none) target (files source)

def moveItem (source target : Path) (files : Files Path Content) :
    Except MoveError (Files Path Content) :=
  if faults.move source target then .error .refused
  else if (files source).isNone then .error .missing
  else if (files target).isSome then .error .occupied
  else .ok (relocate source target files)

def removeItem (path : Path) (files : Files Path Content) : Files Path Content :=
  if faults.remove path then files else Function.update files path none

def tryMoveItem (source target : Path) (files : Files Path Content) : Files Path Content :=
  match moveItem faults source target files with
  | .ok moved => moved
  | .error _ => files

/-- A leftover of an install killed mid-swap makes way for the copy moved aside. -/
def setAside (step : Swap Path) (files : Files Path Content) : Bool × Files Path Content :=
  let swept := removeItem faults step.superseded files
  match moveItem faults step.destination step.superseded swept with
  | .ok aside => (true, aside)
  | .error _ => (false, swept)

def putBack (step : Swap Path) (files : Files Path Content) : Files Path Content :=
  if step.replaced then tryMoveItem faults step.superseded step.destination files else files

def takeBack (files : Files Path Content) (done : Swap Path) : Files Path Content :=
  putBack faults done (tryMoveItem faults done.destination done.incoming files)

def swapFrom (placed : List (Swap Path)) :
    List (Swap Path) → Files Path Content →
      Except MoveError (List (Swap Path)) × Files Path Content
  | [], files => (.ok placed, files)
  | step :: rest, files =>
      let (replaced, aside) := setAside faults step files
      let step := step.mark replaced
      match moveItem faults step.incoming step.destination aside with
      | .ok landed => swapFrom (placed ++ [step]) rest landed
      | .error error =>
          (.error error, placed.reverse.foldl (takeBack faults) (putBack faults step aside))

def swapIntoPlace (plan : List (Swap Path)) (files : Files Path Content) :
    Except MoveError (List (Swap Path)) × Files Path Content :=
  swapFrom faults [] plan files

def Undoes (plan : List (Swap Path)) : Prop :=
  ∀ step ∈ plan, faults.move step.superseded step.destination = false ∧
    faults.move step.destination step.incoming = false

instance (plan : List (Swap Path)) : Decidable (Undoes faults plan) :=
  inferInstanceAs (Decidable (∀ step ∈ plan, _))

def marked (files : Files Path Content) (step : Swap Path) : Swap Path :=
  step.mark (files step.destination).isSome

end Model

section Moves

variable {Path Content : Type} [DecidableEq Path] {faults : Faults Path}
  {files : Files Path Content}

@[simp] theorem relocate_target (source target : Path) :
    relocate source target files target = files source := Function.update_self ..

theorem relocate_source {source target : Path} (apart : source ≠ target) :
    relocate source target files source = none := by
  rw [relocate, Function.update_of_ne apart, Function.update_self]

theorem relocate_of_ne {source target path : Path} (notSource : path ≠ source)
    (notTarget : path ≠ target) : relocate source target files path = files path := by
  rw [relocate, Function.update_of_ne notTarget, Function.update_of_ne notSource]

theorem move_item_ok {source target : Path} {after : Files Path Content}
    (success : moveItem faults source target files = .ok after) :
    (files source).isSome ∧ files target = none ∧ after = relocate source target files := by
  unfold moveItem at success
  split_ifs at success with refused missing occupied
  obtain rfl := Except.ok.inj success
  exact ⟨by simpa [Option.isNone_iff_eq_none, Option.isSome_iff_ne_none] using missing,
    by simpa using occupied, rfl⟩

theorem move_item_ready {source target : Path} (goes : faults.move source target = false)
    (present : (files source).isSome) (free : files target = none) :
    moveItem faults source target files = .ok (relocate source target files) := by
  have here : (files source).isNone = false := by
    rw [Option.isNone_eq_false_iff]
    exact present
  simp [moveItem, goes, here, free]

theorem remove_item_of_ne {removed path : Path} (apart : path ≠ removed) :
    removeItem faults removed files path = files path := by
  unfold removeItem
  split_ifs
  · rfl
  · exact Function.update_of_ne apart none files

theorem try_move_item_of_ne {source target path : Path} (notSource : path ≠ source)
    (notTarget : path ≠ target) : tryMoveItem faults source target files path = files path := by
  unfold tryMoveItem
  cases moved : moveItem faults source target files with
  | error _ => rfl
  | ok after =>
      rw [(move_item_ok moved).2.2]
      exact relocate_of_ne notSource notTarget

theorem try_move_item_ready {source target : Path} (goes : faults.move source target = false)
    (present : (files source).isSome) (free : files target = none) :
    tryMoveItem faults source target files = relocate source target files := by
  rw [tryMoveItem, move_item_ready goes present free]

end Moves

/-! ## One step and its undoing -/

section Step

variable {Path Content : Type} [DecidableEq Path] {faults : Faults Path}
  {files : Files Path Content} {step : Swap Path}

/-- What a move into place leaves of a step that began in `before`. -/
structure Landed (step : Swap Path) (replaced : Bool) (before after : Files Path Content) :
    Prop where
  marks : replaced = (before step.destination).isSome
  destination : after step.destination = before step.incoming
  incoming : after step.incoming = none
  superseded : replaced = true → after step.superseded = before step.destination

def Restored (step : Swap Path) (before after : Files Path Content) : Prop :=
  after step.incoming = before step.incoming ∧ after step.destination = before step.destination

omit [DecidableEq Path] in
theorem swap_paths_nodup :
    step.paths.Nodup ↔ step.incoming ≠ step.destination ∧ step.incoming ≠ step.superseded ∧
      step.destination ≠ step.superseded := by
  simp [Swap.paths, and_assoc]

omit [DecidableEq Path] in
theorem not_mem_paths {path : Path} (outside : path ∉ step.paths) :
    path ≠ step.incoming ∧ path ≠ step.destination ∧ path ≠ step.superseded := by
  simpa [Swap.paths] using outside

theorem set_aside_of_ne {path : Path} (notDestination : path ≠ step.destination)
    (notSuperseded : path ≠ step.superseded) :
    (setAside faults step files).2 path = files path := by
  have swept := @remove_item_of_ne _ _ _ faults files _ _ notSuperseded
  unfold setAside
  cases moved : moveItem faults step.destination step.superseded
      (removeItem faults step.superseded files) with
  | error _ => simpa only [moved] using swept
  | ok aside =>
      simp only [moved, (move_item_ok moved).2.2]
      rw [relocate_of_ne notDestination notSuperseded, swept]

/-- Either the copy in the way waits at its superseded path, or nothing was set aside. -/
theorem set_aside_cases (distinct : step.paths.Nodup) :
    ((setAside faults step files).1 = true ∧ (files step.destination).isSome ∧
        (setAside faults step files).2 step.destination = none ∧
        (setAside faults step files).2 step.superseded = files step.destination) ∨
      ((setAside faults step files).1 = false ∧
        (setAside faults step files).2 step.destination = files step.destination) := by
  obtain ⟨_, _, apart⟩ := swap_paths_nodup.mp distinct
  have swept := @remove_item_of_ne _ _ _ faults files _ _ apart
  unfold setAside
  cases moved : moveItem faults step.destination step.superseded
      (removeItem faults step.superseded files) with
  | error _ => exact Or.inr (by simpa only [moved, true_and] using swept)
  | ok aside =>
      obtain ⟨present, _, rfl⟩ := move_item_ok moved
      rw [swept] at present
      refine Or.inl ?_
      simp only [moved, relocate_source apart, relocate_target, swept, present, and_self]

theorem step_landed (distinct : step.paths.Nodup) {landed : Files Path Content}
    (placed : moveItem faults step.incoming step.destination (setAside faults step files).2 =
      .ok landed) :
    (files step.incoming).isSome ∧ Landed step (setAside faults step files).1 files landed := by
  obtain ⟨fromDestination, fromSuperseded, apart⟩ := swap_paths_nodup.mp distinct
  obtain ⟨present, free, rfl⟩ := move_item_ok placed
  have arrived := @set_aside_of_ne _ _ _ faults files _ _ fromDestination fromSuperseded
  rw [arrived] at present
  refine ⟨present, ?_⟩
  rcases @set_aside_cases _ _ _ faults files step distinct with
      ⟨replaced, held, _, waiting⟩ | ⟨untouched, same⟩
  · exact
      { marks := by rw [replaced, held]
        destination := by rw [relocate_target, arrived]
        incoming := relocate_source fromDestination
        superseded := fun _ => by
          rw [relocate_of_ne fromSuperseded.symm apart.symm, waiting] }
  · rw [same] at free
    exact
      { marks := by rw [untouched, free, Option.isSome_none]
        destination := by rw [relocate_target, arrived]
        incoming := relocate_source fromDestination
        superseded := fun replaced => absurd (untouched.symm.trans replaced) (by decide) }

theorem landed_frame {landed : Files Path Content} {path : Path} (outside : path ∉ step.paths)
    (placed : moveItem faults step.incoming step.destination (setAside faults step files).2 =
      .ok landed) : landed path = files path := by
  obtain ⟨notIncoming, notDestination, notSuperseded⟩ := not_mem_paths outside
  rw [(move_item_ok placed).2.2, relocate_of_ne notIncoming notDestination,
    set_aside_of_ne notDestination notSuperseded]

theorem put_back_frame {path : Path} (outside : path ∉ step.paths) (replaced : Bool) :
    putBack faults (step.mark replaced) files path = files path := by
  obtain ⟨_, notDestination, notSuperseded⟩ := not_mem_paths outside
  cases replaced with
  | false => rfl
  | true => exact try_move_item_of_ne notSuperseded notDestination

theorem take_back_frame {path : Path} (outside : path ∉ step.paths) (replaced : Bool) :
    takeBack faults files (step.mark replaced) path = files path := by
  obtain ⟨notIncoming, notDestination, _⟩ := not_mem_paths outside
  exact (put_back_frame outside replaced).trans (try_move_item_of_ne notDestination notIncoming)

/-- Putting back over a free destination restores what was there, from where it waits. -/
theorem put_back_destination (goes : faults.move step.superseded step.destination = false)
    {replaced : Bool} {original : Option Content} (free : files step.destination = none)
    (marks : replaced = original.isSome)
    (waiting : replaced = true → files step.superseded = original) :
    putBack faults (step.mark replaced) files step.destination = original := by
  cases replaced with
  | false => exact free.trans (Option.isNone_iff_eq_none.mp (by simpa using marks.symm)).symm
  | true =>
      have present : (files step.superseded).isSome := by rw [waiting rfl, ← marks]
      have moved := try_move_item_ready goes present free
      exact (congrFun moved step.destination).trans ((relocate_target ..).trans (waiting rfl))

theorem put_back_incoming (distinct : step.paths.Nodup) (replaced : Bool) :
    putBack faults (step.mark replaced) files step.incoming = files step.incoming := by
  obtain ⟨fromDestination, fromSuperseded, _⟩ := swap_paths_nodup.mp distinct
  cases replaced with
  | false => rfl
  | true => exact try_move_item_of_ne fromSuperseded fromDestination

theorem step_stuck (distinct : step.paths.Nodup)
    (goes : faults.move step.superseded step.destination = false) :
    Restored step files
      (putBack faults (step.mark (setAside faults step files).1)
        (setAside faults step files).2) := by
  obtain ⟨fromDestination, fromSuperseded, _⟩ := swap_paths_nodup.mp distinct
  constructor
  · rw [put_back_incoming distinct, set_aside_of_ne fromDestination fromSuperseded]
  · rcases @set_aside_cases _ _ _ faults files step distinct with
        ⟨replaced, held, free, waiting⟩ | ⟨untouched, same⟩
    · exact put_back_destination goes free (replaced.trans held.symm) fun _ => waiting
    · rw [untouched]
      exact same

theorem step_taken_back (distinct : step.paths.Nodup) {replaced : Bool}
    {before : Files Path Content} (present : (before step.incoming).isSome)
    (landed : Landed step replaced before files)
    (goes : faults.move step.superseded step.destination = false ∧
      faults.move step.destination step.incoming = false) :
    Restored step before (takeBack faults files (step.mark replaced)) := by
  obtain ⟨fromDestination, fromSuperseded, apart⟩ := swap_paths_nodup.mp distinct
  have taken : takeBack faults files (step.mark replaced) =
      putBack faults (step.mark replaced) (relocate step.destination step.incoming files) :=
    congrArg _ (try_move_item_ready goes.2 (by rwa [landed.destination]) landed.incoming)
  rw [taken]
  constructor
  · rw [put_back_incoming distinct, relocate_target, landed.destination]
  · apply put_back_destination goes.1 (relocate_source fromDestination.symm) landed.marks
    intro aside
    rw [relocate_of_ne apart.symm fromSuperseded.symm]
    exact landed.superseded aside

end Step

/-! ## The whole swap -/

section Run

variable {Path Content : Type} [DecidableEq Path] {faults : Faults Path}

section Cons

variable (placed : List (Swap Path)) (step : Swap Path) (rest : List (Swap Path))
  (files : Files Path Content)

theorem swap_from_stuck {error : MoveError}
    (stuck : moveItem faults step.incoming step.destination (setAside faults step files).2 =
      .error error) :
    swapFrom faults placed (step :: rest) files =
      (.error error, placed.reverse.foldl (takeBack faults)
        (putBack faults (step.mark (setAside faults step files).1)
          (setAside faults step files).2)) := by
  rw [swapFrom]
  simp only [Swap.mark, stuck]

theorem swap_from_landed {landed : Files Path Content}
    (lands : moveItem faults step.incoming step.destination (setAside faults step files).2 =
      .ok landed) :
    swapFrom faults placed (step :: rest) files =
      swapFrom faults (placed ++ [step.mark (setAside faults step files).1]) rest landed := by
  rw [swapFrom]
  simp only [Swap.mark, lands]

end Cons

/-- The steps placed before a tail of the plan come back in front of it, or are taken back
after it. -/
theorem swap_from_placed (placed rest : List (Swap Path)) (files : Files Path Content) :
    swapFrom faults placed rest files =
      match swapIntoPlace faults rest files with
      | (.ok done, after) => (.ok (placed ++ done), after)
      | (.error error, after) => (.error error, placed.reverse.foldl (takeBack faults) after) := by
  unfold swapIntoPlace
  induction rest generalizing placed files with
  | nil => simp only [swapFrom, List.append_nil]
  | cons step rest induction =>
      cases lands : moveItem faults step.incoming step.destination
          (setAside faults step files).2 with
      | error error =>
          rw [swap_from_stuck _ _ _ _ lands, swap_from_stuck _ _ _ _ lands]
          rfl
      | ok landed =>
          rw [swap_from_landed _ _ _ _ lands, swap_from_landed _ _ _ _ lands,
            induction (placed ++ _), induction ([] ++ _)]
          cases swapFrom faults [] rest landed with
          | mk result after => cases result <;> simp

theorem swap_cons_landed (step : Swap Path) (rest : List (Swap Path)) (files : Files Path Content)
    {landed : Files Path Content}
    (lands : moveItem faults step.incoming step.destination (setAside faults step files).2 =
      .ok landed) :
    swapIntoPlace faults (step :: rest) files =
      match swapIntoPlace faults rest landed with
      | (.ok done, after) => (.ok (step.mark (setAside faults step files).1 :: done), after)
      | (.error error, after) =>
          (.error error, takeBack faults after (step.mark (setAside faults step files).1)) := by
  rw [swapIntoPlace, swap_from_landed _ _ _ _ lands, swap_from_placed]
  rfl

/-- What a swap comes to: its first step is stuck, or lands and stays with the rest, or lands and
is taken back once the rest failed. -/
theorem swap_cons (step : Swap Path) (rest : List (Swap Path)) (files : Files Path Content) :
    (∃ error, moveItem faults step.incoming step.destination (setAside faults step files).2 =
          .error error ∧
        swapIntoPlace faults (step :: rest) files =
          (.error error, putBack faults (step.mark (setAside faults step files).1)
            (setAside faults step files).2)) ∨
      ∃ landed, moveItem faults step.incoming step.destination (setAside faults step files).2 =
            .ok landed ∧
        ((∃ done after, swapIntoPlace faults rest landed = (.ok done, after) ∧
            swapIntoPlace faults (step :: rest) files =
              (.ok (step.mark (setAside faults step files).1 :: done), after)) ∨
          ∃ error after, swapIntoPlace faults rest landed = (.error error, after) ∧
            swapIntoPlace faults (step :: rest) files = (.error error,
              takeBack faults after (step.mark (setAside faults step files).1))) := by
  cases lands : moveItem faults step.incoming step.destination (setAside faults step files).2 with
  | error error => exact Or.inl ⟨error, rfl, swap_from_stuck _ _ _ _ lands⟩
  | ok landed =>
      refine Or.inr ⟨landed, rfl, ?_⟩
      rw [swap_cons_landed _ _ _ lands]
      cases swapIntoPlace faults rest landed with
      | mk result after =>
          cases result with
          | ok done => exact Or.inl ⟨done, after, rfl, rfl⟩
          | error error => exact Or.inr ⟨error, after, rfl, rfl⟩

theorem swap_frame (plan : List (Swap Path)) (files : Files Path Content) {path : Path}
    (outside : path ∉ plan.flatMap Swap.paths) :
    (swapIntoPlace faults plan files).2 path = files path := by
  induction plan generalizing files with
  | nil => rfl
  | cons step rest induction =>
      rw [List.flatMap_cons, List.mem_append, not_or] at outside
      have apart := not_mem_paths outside.1
      rcases @swap_cons _ _ _ faults step rest files with ⟨error, _, outcome⟩ |
          ⟨landed, lands, ⟨done, after, later, outcome⟩ | ⟨error, after, later, outcome⟩⟩
      · rw [outcome]
        exact (put_back_frame outside.1 _).trans (set_aside_of_ne apart.2.1 apart.2.2)
      · have deeper := (induction landed outside.2).trans (landed_frame outside.1 lands)
        rw [later] at deeper
        rwa [outcome]
      · have deeper := (induction landed outside.2).trans (landed_frame outside.1 lands)
        rw [later] at deeper
        rw [outcome]
        exact (take_back_frame outside.1 _).trans deeper

def Installed (step : Swap Path) (before after : Files Path Content) : Prop :=
  after step.destination = before step.incoming ∧
    ∀ content, before step.destination = some content → after step.superseded = some content

def AllOrNothing (plan : List (Swap Path)) (before : Files Path Content)
    (outcome : Except MoveError (List (Swap Path)) × Files Path Content) : Prop :=
  match outcome with
  | (.ok placed, after) =>
      placed = plan.map (marked before) ∧ ∀ step ∈ plan, Installed step before after
  | (.error _, after) => ∀ step ∈ plan, Restored step before after

omit [DecidableEq Path] in
theorem undoes_cons {step : Swap Path} {rest : List (Swap Path)} :
    Undoes faults (step :: rest) ↔
      (faults.move step.superseded step.destination = false ∧
        faults.move step.destination step.incoming = false) ∧ Undoes faults rest :=
  List.forall_mem_cons

omit [DecidableEq Path] in
theorem plan_paths_cons {step : Swap Path} {rest : List (Swap Path)}
    (distinct : ((step :: rest).flatMap Swap.paths).Nodup) :
    step.paths.Nodup ∧ (rest.flatMap Swap.paths).Nodup ∧
      (∀ path ∈ step.paths, path ∉ rest.flatMap Swap.paths) ∧
        ∀ other ∈ rest, ∀ path ∈ other.paths, path ∉ step.paths := by
  rw [List.flatMap_cons, List.nodup_append'] at distinct
  obtain ⟨here, later, apart⟩ := distinct
  refine ⟨here, later, fun path member => apart member, ?_⟩
  intro other among path member inside
  exact apart inside (List.mem_flatMap.mpr ⟨other, among, member⟩)

omit [DecidableEq Path] in
theorem Landed.of_same {step : Swap Path} {replaced : Bool}
    {before landed after : Files Path Content}
    (lands : Landed step replaced before landed)
    (same : ∀ path ∈ step.paths, after path = landed path) :
    Landed step replaced before after where
  marks := lands.marks
  destination := (same _ (by simp [Swap.paths])).trans lands.destination
  incoming := (same _ (by simp [Swap.paths])).trans lands.incoming
  superseded := fun aside => (same _ (by simp [Swap.paths])).trans (lands.superseded aside)

omit [DecidableEq Path] in
theorem Landed.installed {step : Swap Path} {replaced : Bool} {before after : Files Path Content}
    (landed : Landed step replaced before after) : Installed step before after := by
  refine ⟨landed.destination, fun content present => ?_⟩
  have aside := landed.superseded (landed.marks.trans (by rw [present, Option.isSome_some]))
  exact aside.trans present

omit [DecidableEq Path] in
theorem Restored.of_same {step : Swap Path} {before started after ended : Files Path Content}
    (restored : Restored step started ended)
    (first : ∀ path ∈ step.paths, started path = before path)
    (last : ∀ path ∈ step.paths, after path = ended path) : Restored step before after := by
  have incoming : step.incoming ∈ step.paths := by simp [Swap.paths]
  have destination : step.destination ∈ step.paths := by simp [Swap.paths]
  exact ⟨((last _ incoming).trans restored.1).trans (first _ incoming),
    ((last _ destination).trans restored.2).trans (first _ destination)⟩

omit [DecidableEq Path] in
theorem Installed.of_same {step : Swap Path} {before started after : Files Path Content}
    (installed : Installed step started after)
    (first : ∀ path ∈ step.paths, started path = before path) : Installed step before after := by
  have incoming := first step.incoming (by simp [Swap.paths])
  have destination := first step.destination (by simp [Swap.paths])
  refine ⟨installed.1.trans incoming, fun content present => ?_⟩
  exact installed.2 content (destination.trans present)

/-- A swap either installs its whole plan or leaves every incoming and destination path as it
was, whatever moves and removals fail on the way in. -/
theorem swap_all_or_nothing (plan : List (Swap Path)) (files : Files Path Content)
    (distinct : (plan.flatMap Swap.paths).Nodup) (undoes : Undoes faults plan) :
    AllOrNothing plan files (swapIntoPlace faults plan files) := by
  induction plan generalizing files with
  | nil => exact ⟨rfl, fun _ member => (List.not_mem_nil member).elim⟩
  | cons step rest induction =>
      obtain ⟨here, later, fresh, others⟩ := plan_paths_cons distinct
      obtain ⟨goes, undoesRest⟩ := undoes_cons.mp undoes
      rcases @swap_cons _ _ _ faults step rest files with ⟨error, _, outcome⟩ |
          ⟨landed, lands, ⟨done, after, last, outcome⟩ | ⟨error, after, last, outcome⟩⟩
      · rw [outcome]
        intro other among
        rcases List.mem_cons.mp among with rfl | among
        · exact step_stuck here goes.1
        · -- The steps after the one that failed were never reached.
          have untouched : ∀ path ∈ other.paths, putBack faults
              (step.mark (setAside faults step files).1) (setAside faults step files).2 path =
                files path := by
            intro path member
            have outside := others other among path member
            have apart := not_mem_paths outside
            exact (put_back_frame outside _).trans (set_aside_of_ne apart.2.1 apart.2.2)
          exact Restored.of_same ⟨rfl, rfl⟩ (fun _ _ => rfl) untouched
      all_goals
        obtain ⟨present, arrived⟩ := step_landed here lands
        have untouched : ∀ other ∈ rest, ∀ path ∈ other.paths, landed path = files path :=
          fun other among path member => landed_frame (others other among path member) lands
        have deeper := induction landed later undoesRest
        have frame : ∀ path ∈ step.paths, _ := fun path member =>
          @swap_frame _ _ _ faults rest landed path (fresh path member)
        rw [last] at deeper frame
        have kept := arrived.of_same frame
        rw [outcome]
      · refine ⟨?_, List.forall_mem_cons.mpr ⟨kept.installed, ?_⟩⟩
        · rw [deeper.1, List.map_cons, marked, arrived.marks]
          congr 1
          apply List.map_congr_left
          intro other among
          rw [marked, marked, untouched other among _ (by simp [Swap.paths])]
        · intro other among
          exact (deeper.2 other among).of_same (untouched other among)
      · refine List.forall_mem_cons.mpr ⟨step_taken_back here present kept goes, ?_⟩
        intro other among
        apply (deeper other among).of_same (untouched other among)
        intro path member
        exact take_back_frame (others other among path member) _

/-- The third of three parts does not move in, over a leftover of the second. -/
theorem swap_all_or_nothing_refused :
    let faults : Faults Nat :=
      { remove := fun _ => false, move := fun source target => (source, target) == (6, 7) }
    let plan : List (Swap Nat) :=
      [ { incoming := 0, destination := 1, superseded := 2 }
      , { incoming := 3, destination := 4, superseded := 5 }
      , { incoming := 6, destination := 7, superseded := 8 } ]
    let files : Files Nat Nat := fun path => if path ∈ [0, 1, 3, 5, 6, 7] then some path else none
    (swapIntoPlace faults plan files).1 = .error .refused ∧
      AllOrNothing plan files (swapIntoPlace faults plan files) :=
  ⟨by decide, swap_all_or_nothing _ _ (by decide) (by decide)⟩

end Run

/-! ## The swap of the folders -/

section Folders

/-- Where a name of the downloads directory stands: under its prefix, or under none. -/
inductive Place where
  | held
  | incoming
  | superseded
  deriving DecidableEq, Repr

def folder (disk : Disk) : Place → Folder
  | .held => disk.held
  | .incoming => disk.incoming
  | .superseded => disk.superseded

def setFolder (place : Place) (files : Folder) (disk : Disk) : Disk :=
  match place with
  | .held => { disk with held := files }
  | .incoming => { disk with incoming := files }
  | .superseded => { disk with superseded := files }

def exchange (source target : Place) (moved : Folder × Folder) (disk : Disk) : Disk :=
  setFolder target moved.2 (setFolder source moved.1 disk)

def filesOf (disk : Disk) : Files (Place × Text) Bytes := fun path => folder disk path.1 path.2

def stepOf (name : Text) : Swap (Place × Text) where
  incoming := (.incoming, name)
  destination := (.held, name)
  superseded := (.superseded, name)

def pathFaults (faults : Downloads.Faults) : Faults (Place × Text) where
  remove path := faults .sweep path.2
  move source target :=
    match source.1, target.1 with
    | .held, .superseded => faults .setAside source.2
    | .incoming, .held => faults .place source.2
    | .superseded, .held => faults .putBack source.2
    | .held, .incoming => faults .takeBack source.2
    | _, _ => false

variable {faults : Downloads.Faults} {disk : Disk}

theorem folder_set_folder (place other : Place) (files : Folder) :
    folder (setFolder place files disk) other =
      if other = place then files else folder disk other := by
  cases place <;> cases other <;> rfl

@[simp] theorem files_of_apply (place : Place) (name : Text) :
    filesOf disk (place, name) = folder disk place name := rfl

theorem move_item_files_some {source target : Place} {name : Text} {moved : Folder × Folder}
    (moves : moveFile ((pathFaults faults).move (source, name) (target, name))
      (folder disk source) (folder disk target) name = some moved) :
    moveItem (pathFaults faults) (source, name) (target, name) (filesOf disk) =
      .ok (relocate (source, name) (target, name) (filesOf disk)) := by
  have goes : (pathFaults faults).move (source, name) (target, name) = false := by
    unfold moveFile at moves
    split_ifs at moves with stuck
    simp only [not_or, Bool.not_eq_true] at stuck
    exact stuck.1
  obtain ⟨present, free, _⟩ := move_file_some moves
  exact move_item_ready goes (Option.isSome_iff_ne_none.mpr present) free

theorem move_item_files_none {source target : Place} {name : Text}
    (stuck : moveFile ((pathFaults faults).move (source, name) (target, name))
      (folder disk source) (folder disk target) name = none) :
    ∃ error, moveItem (pathFaults faults) (source, name) (target, name) (filesOf disk) =
      .error error := by
  cases moves : moveItem (pathFaults faults) (source, name) (target, name) (filesOf disk) with
  | error error => exact ⟨error, rfl⟩
  | ok after =>
      obtain ⟨present, free, _⟩ := move_item_ok moves
      have goes : (pathFaults faults).move (source, name) (target, name) = false := by
        unfold moveItem at moves
        split_ifs at moves with refused
        exact Bool.not_eq_true _ |>.mp refused
      rw [goes, move_file_ready (Option.isSome_iff_ne_none.mp present) free] at stuck
      cases stuck

theorem files_exchange {source target : Place} {name : Text} {moved : Folder × Folder}
    {fault : Bool} (apart : source ≠ target)
    (moves : moveFile fault (folder disk source) (folder disk target) name = some moved) :
    filesOf (exchange source target moved disk) =
      relocate (source, name) (target, name) (filesOf disk) := by
  obtain ⟨_, _, left, arrived⟩ := move_file_some moves
  funext path
  obtain ⟨place, other⟩ := path
  simp only [files_of_apply, exchange, folder_set_folder, left, arrived, relocate]
  by_cases atTarget : place = target
  · subst atTarget
    by_cases same : other = name
    · subst same
      simp
    · simp [same, apart.symm]
  · by_cases atSource : place = source
    · subst atSource
      by_cases same : other = name
      · subst same
        simp [atTarget]
      · simp [same, atTarget]
    · simp [atSource, atTarget]

theorem move_item_files {source target : Place} {name : Text} {moved : Folder × Folder}
    (apart : source ≠ target)
    (moves : moveFile ((pathFaults faults).move (source, name) (target, name))
      (folder disk source) (folder disk target) name = some moved) :
    moveItem (pathFaults faults) (source, name) (target, name) (filesOf disk) =
      .ok (filesOf (exchange source target moved disk)) := by
  rw [files_exchange apart moves]
  exact move_item_files_some moves

theorem remove_item_files (name : Text) (disk : Disk) :
    removeItem (pathFaults faults) (.superseded, name) (filesOf disk) =
      filesOf { disk with superseded := removeFile (faults .sweep name) disk.superseded name } := by
  unfold removeItem removeFile
  have swept : (pathFaults faults).remove (.superseded, name) = faults .sweep name := rfl
  rw [swept]
  split_ifs
  · rfl
  · funext path
    obtain ⟨place, other⟩ := path
    by_cases same : other = name
    · subst same
      cases place <;> simp [filesOf, folder]
    · cases place <;> simp [filesOf, folder, same]

theorem set_aside_files (name : Text) (disk : Disk) :
    setAside (pathFaults faults) (stepOf name) (filesOf disk) =
      ((Downloads.setAside faults name disk).1,
        filesOf (Downloads.setAside faults name disk).2) := by
  unfold setAside Downloads.setAside
  simp only [stepOf, remove_item_files]
  cases moves : moveFile (faults .setAside name) disk.held
      (removeFile (faults .sweep name) disk.superseded name) name with
  | none =>
      obtain ⟨error, stuck⟩ := @move_item_files_none faults { disk with
        superseded := removeFile (faults .sweep name) disk.superseded name } .held .superseded
          name moves
      simp only [stuck]
  | some moved =>
      have goes := @move_item_files faults { disk with
        superseded := removeFile (faults .sweep name) disk.superseded name } .held .superseded
          name moved (by decide) moves
      simp only [goes]
      rfl

theorem put_back_files (name : Text) (replaced : Bool) (disk : Disk) :
    putBack (pathFaults faults) ((stepOf name).mark replaced) (filesOf disk) =
      filesOf (Downloads.putBack faults name replaced disk) := by
  cases replaced with
  | false => rfl
  | true =>
      simp only [putBack, Downloads.putBack, Swap.mark, stepOf, if_true, tryMoveItem]
      cases moves : moveFile (faults .putBack name) disk.superseded disk.held name with
      | none =>
          obtain ⟨error, stuck⟩ := @move_item_files_none faults _ .superseded .held name moves
          simp only [stuck]
      | some moved =>
          have goes := @move_item_files faults _ .superseded .held name moved (by decide) moves
          simp only [goes]
          rfl

theorem take_back_files (name : Text) (replaced : Bool) (disk : Disk) :
    takeBack (pathFaults faults) (filesOf disk) ((stepOf name).mark replaced) =
      filesOf (Downloads.putBack faults name replaced (Downloads.takeBack faults name disk)) := by
  rw [takeBack, ← put_back_files]
  congr 1
  simp only [Swap.mark, stepOf, tryMoveItem, Downloads.takeBack]
  cases moves : moveFile (faults .takeBack name) disk.held disk.incoming name with
  | none =>
      obtain ⟨error, stuck⟩ := @move_item_files_none faults _ .held .incoming name moves
      simp only [stuck]
  | some moved =>
      have goes := @move_item_files faults _ .held .incoming name moved (by decide) moves
      simp only [goes]
      rfl

def namesReplaced (result : Except MoveError (List (Swap (Place × Text)))) : Option (List Text) :=
  match result with
  | .ok placed => some ((placed.filter (·.replaced)).map (·.destination.2))
  | .error _ => none

/-- The swap of the folders is the swap of the paths of its names. -/
theorem folders_swap (names : List Text) (disk : Disk) :
    namesReplaced (swapIntoPlace (pathFaults faults) (names.map stepOf) (filesOf disk)).1 =
        (Downloads.swapIntoPlace faults names disk).1 ∧
      (swapIntoPlace (pathFaults faults) (names.map stepOf) (filesOf disk)).2 =
        filesOf (Downloads.swapIntoPlace faults names disk).2 := by
  induction names generalizing disk with
  | nil => exact ⟨rfl, rfl⟩
  | cons name rest induction =>
      have aside := @set_aside_files faults name disk
      rw [List.map_cons]
      rcases @Downloads.swap_cons faults name rest disk with
          ⟨moves, outcome⟩ | ⟨moved, moves, ⟨others, last, later, outcome⟩ | ⟨last, later, outcome⟩⟩
      · obtain ⟨error, stuck⟩ := @move_item_files_none faults _ .incoming .held name moves
        rw [outcome, swapIntoPlace, swap_from_stuck _ _ _ _ (by rw [aside]; exact stuck), aside]
        exact ⟨rfl, put_back_files ..⟩
      all_goals
        have goes : moveItem (pathFaults faults) (stepOf name).incoming (stepOf name).destination
            (setAside (pathFaults faults) (stepOf name) (filesOf disk)).2 =
              .ok (filesOf (placedDisk faults name disk moved)) := by
          rw [aside]
          exact move_item_files (by decide) moves
        obtain ⟨same, files⟩ := induction (placedDisk faults name disk moved)
        rw [later] at same files
        rw [outcome, swap_cons_landed _ _ _ goes, aside]
        rcases run : swapIntoPlace (pathFaults faults) (rest.map stepOf)
          (filesOf (placedDisk faults name disk moved)) with ⟨error | placed, after⟩
        all_goals rw [run] at same files
      -- Both swaps return, or neither does.
      · cases same
      · cases same
        refine ⟨?_, files⟩
        cases (Downloads.setAside faults name disk).1 <;> rfl
      · obtain rfl : after = filesOf last := files
        exact ⟨rfl, take_back_files ..⟩
      · cases same

end Folders

end Omnibus.Downloads.Paths
