import Mathlib.Logic.Function.Basic
import Omnibus.Library.Strings

/-!
# Installing a download

`DownloadManager.swapIntoPlace`: every fetched file is moved into place, what it supersedes set
aside, and the whole set undone when a single move fails. A file's names on the device are its
own, one under each prefix, so a prefix is a folder here. Any move can fail.
-/

namespace Omnibus.Downloads

open Omnibus.Library.Strings

structure Transfer where
  serial : Nat
  ordinal : Int
  start : Option Nat
  deriving DecidableEq

/-- The bytes of a file: those on the device before, or those a transfer brought. -/
inductive Bytes where
  | kept (name : Text)
  | fetched (transfer : Transfer)
  deriving DecidableEq

def Bytes.Brought (ordinal : Int) (bytes : Bytes) : Prop :=
  ∃ transfer, bytes = .fetched transfer ∧ transfer.ordinal = ordinal

abbrev Folder := Text → Option Bytes

/-- The downloads directory: the files under their own names, under the three prefixes, and what
the transfers staged by part. -/
structure Disk where
  held : Folder
  incoming : Folder
  superseded : Folder
  resume : Text → Bool
  staged : Int → Option Bytes

/-- What can fail while a set is swapped into place. -/
inductive Move where
  | sweep
  | setAside
  | place
  | putBack
  | takeBack
  | stage
  deriving DecidableEq

abbrev Faults := Move → Text → Bool

/-- A move fails where there is nothing to move or something in the way. -/
def moveFile (fault : Bool) (source target : Folder) (name : Text) : Option (Folder × Folder) :=
  if fault = true ∨ source name = none ∨ target name ≠ none then none
  else some (Function.update source name none, Function.update target name (source name))

def removeFile (fault : Bool) (folder : Folder) (name : Text) : Folder :=
  if fault then folder else Function.update folder name none

section Swap

variable (faults : Faults)

def setAside (name : Text) (disk : Disk) : Bool × Disk :=
  let superseded := removeFile (faults .sweep name) disk.superseded name
  match moveFile (faults .setAside name) disk.held superseded name with
  | some (held, superseded) => (true, { disk with held, superseded })
  | none => (false, { disk with superseded })

def putBack (name : Text) (replaced : Bool) (disk : Disk) : Disk :=
  if replaced then
    match moveFile (faults .putBack name) disk.superseded disk.held name with
    | some (superseded, held) => { disk with held, superseded }
    | none => disk
  else disk

def takeBack (name : Text) (disk : Disk) : Disk :=
  match moveFile (faults .takeBack name) disk.held disk.incoming name with
  | some (held, incoming) => { disk with held, incoming }
  | none => disk

/-- The loop of the swap: the names whose copy was set aside, or none and what undoing left. -/
def swapIntoPlace : List Text → Disk → Option (List Text) × Disk
  | [], disk => (some [], disk)
  | name :: rest, disk =>
      let (replaced, aside) := setAside faults name disk
      match moveFile (faults .place name) aside.incoming aside.held name with
      | none => (none, putBack faults name replaced aside)
      | some (incoming, held) =>
          match swapIntoPlace rest { aside with held, incoming } with
          | (some others, placed) => (some (if replaced then name :: others else others), placed)
          | (none, failed) => (none, putBack faults name replaced (takeBack faults name failed))

end Swap

section Frame

variable {faults : Faults}

theorem move_file_some {fault : Bool} {source target : Folder} {name : Text}
    {moved : Folder × Folder} (success : moveFile fault source target name = some moved) :
    source name ≠ none ∧ target name = none ∧ moved.1 = Function.update source name none ∧
      moved.2 = Function.update target name (source name) := by
  unfold moveFile at success
  split_ifs at success with stuck
  obtain rfl := Option.some.inj success
  simp only [not_or, ne_eq, not_not] at stuck
  exact ⟨stuck.2.1, stuck.2.2, rfl, rfl⟩

def Disk.slot (disk : Disk) (name : Text) : Option Bytes × Option Bytes × Option Bytes :=
  (disk.held name, disk.incoming name, disk.superseded name)

theorem remove_file_of_ne (fault : Bool) (folder : Folder) (name other : Text)
    (apart : other ≠ name) : removeFile fault folder name other = folder other := by
  unfold removeFile
  split_ifs
  · rfl
  · exact Function.update_of_ne apart none folder

theorem set_aside_slot (name other : Text) (disk : Disk) (apart : other ≠ name) :
    (setAside faults name disk).2.slot other = disk.slot other := by
  have swept := remove_file_of_ne (faults .sweep name) disk.superseded name other apart
  unfold setAside
  cases moved : moveFile (faults .setAside name) disk.held
      (removeFile (faults .sweep name) disk.superseded name) name with
  | none => simp [Disk.slot, moved, swept]
  | some pair =>
      obtain ⟨_, _, source, target⟩ := move_file_some moved
      simp [Disk.slot, moved, source, target, Function.update_of_ne apart, swept]

theorem put_back_slot (name other : Text) (replaced : Bool) (disk : Disk) (apart : other ≠ name) :
    (putBack faults name replaced disk).slot other = disk.slot other := by
  unfold putBack
  split_ifs
  · cases moved : moveFile (faults .putBack name) disk.superseded disk.held name with
    | none => rfl
    | some pair =>
        obtain ⟨_, _, source, target⟩ := move_file_some moved
        simp [Disk.slot, source, target, Function.update_of_ne apart]
  · rfl

theorem take_back_slot (name other : Text) (disk : Disk) (apart : other ≠ name) :
    (takeBack faults name disk).slot other = disk.slot other := by
  unfold takeBack
  cases moved : moveFile (faults .takeBack name) disk.held disk.incoming name with
  | none => rfl
  | some pair =>
      obtain ⟨_, _, source, target⟩ := move_file_some moved
      simp [Disk.slot, source, target, Function.update_of_ne apart]

theorem set_aside_held (name : Text) (disk : Disk) :
    ((setAside faults name disk).1 = true ∧ (setAside faults name disk).2.held name = none ∧
        (setAside faults name disk).2.superseded name = disk.held name ∧ disk.held name ≠ none) ∨
      ((setAside faults name disk).1 = false ∧
        (setAside faults name disk).2.held = disk.held) := by
  cases moved : moveFile (faults .setAside name) disk.held
      (removeFile (faults .sweep name) disk.superseded name) name with
  | none => exact Or.inr (by simp [setAside, moved])
  | some pair =>
      obtain ⟨present, _, source, target⟩ := move_file_some moved
      exact Or.inl (by simp [setAside, moved, source, target, present])

theorem set_aside_incoming (name : Text) (disk : Disk) :
    (setAside faults name disk).2.incoming = disk.incoming := by
  cases moved : moveFile (faults .setAside name) disk.held
      (removeFile (faults .sweep name) disk.superseded name) name with
  | none => simp [setAside, moved]
  | some pair => simp [setAside, moved]

section Cons

variable (name : Text) (rest : List Text) (disk : Disk)

def placedDisk (faults : Faults) (name : Text) (disk : Disk) (moved : Folder × Folder) : Disk :=
  { (setAside faults name disk).2 with held := moved.2, incoming := moved.1 }

/-- What a swap comes to: its first file is stuck, or moves in and stays with the rest, or moves
in and is taken back once the rest failed. -/
theorem swap_cons :
    (moveFile (faults .place name) (setAside faults name disk).2.incoming
          (setAside faults name disk).2.held name = none ∧
        swapIntoPlace faults (name :: rest) disk = (none,
          putBack faults name (setAside faults name disk).1 (setAside faults name disk).2)) ∨
      ∃ moved, moveFile (faults .place name) (setAside faults name disk).2.incoming
            (setAside faults name disk).2.held name = some moved ∧
        ((∃ others last,
            swapIntoPlace faults rest (placedDisk faults name disk moved) = (some others, last) ∧
              swapIntoPlace faults (name :: rest) disk =
                (some (if (setAside faults name disk).1 then name :: others else others), last)) ∨
          ∃ last, swapIntoPlace faults rest (placedDisk faults name disk moved) = (none, last) ∧
            swapIntoPlace faults (name :: rest) disk = (none,
              putBack faults name (setAside faults name disk).1 (takeBack faults name last))) := by
  rw [swapIntoPlace]
  cases placed : moveFile (faults .place name) (setAside faults name disk).2.incoming
      (setAside faults name disk).2.held name with
  | none => exact Or.inl ⟨rfl, by simp only [placed]⟩
  | some moved =>
      refine Or.inr ⟨moved, rfl, ?_⟩
      simp only [placed]
      cases later : swapIntoPlace faults rest (placedDisk faults name disk moved) with
      | mk result last =>
          have inner := later
          rw [placedDisk] at inner
          cases result with
          | none => exact Or.inr ⟨last, rfl, by simp only [inner]⟩
          | some others => exact Or.inl ⟨others, last, rfl, by simp only [inner]⟩

variable (moved : Folder × Folder)

theorem placed_disk_slot (other : Text) (apart : other ≠ name)
    (placed : moveFile (faults .place name) (setAside faults name disk).2.incoming
      (setAside faults name disk).2.held name = some moved) :
    (placedDisk faults name disk moved).slot other = disk.slot other := by
  obtain ⟨_, _, source, target⟩ := move_file_some placed
  rw [← @set_aside_slot faults name other disk apart]
  simp [Disk.slot, placedDisk, source, target, Function.update_of_ne apart]

theorem placed_disk_here (placed : moveFile (faults .place name)
      (setAside faults name disk).2.incoming (setAside faults name disk).2.held name =
        some moved) :
    (placedDisk faults name disk moved).held name = disk.incoming name ∧
      disk.incoming name ≠ none ∧ (placedDisk faults name disk moved).incoming name = none := by
  obtain ⟨present, _, source, target⟩ := move_file_some placed
  rw [set_aside_incoming] at present target
  simp only [placedDisk, source, target, Function.update_self]
  exact ⟨trivial, present, trivial⟩

end Cons

theorem swap_slot (names : List Text) (disk : Disk) (other : Text) (outside : other ∉ names) :
    (swapIntoPlace faults names disk).2.slot other = disk.slot other := by
  induction names generalizing disk with
  | nil => rfl
  | cons name rest induction =>
      rw [List.mem_cons, not_or] at outside
      have aside := @set_aside_slot faults name other disk outside.1
      rcases @swap_cons faults name rest disk with
          ⟨_, outcome⟩ | ⟨moved, placed, ⟨others, last, later, outcome⟩ | ⟨last, later, outcome⟩⟩
      · rw [outcome, put_back_slot name other _ _ outside.1, aside]
      · have deeper := induction (placedDisk faults name disk moved) outside.2
        rw [placed_disk_slot name disk moved other outside.1 placed, later] at deeper
        rwa [outcome]
      · have deeper := induction (placedDisk faults name disk moved) outside.2
        rw [placed_disk_slot name disk moved other outside.1 placed, later] at deeper
        rw [outcome, put_back_slot name other _ _ outside.1, take_back_slot name other _ outside.1]
        exact deeper

def Undoes (faults : Faults) (names : List Text) : Prop :=
  ∀ name ∈ names, faults .putBack name = false ∧ faults .takeBack name = false

instance (faults : Faults) (names : List Text) : Decidable (Undoes faults names) :=
  inferInstanceAs (Decidable (∀ name ∈ names, _))

theorem move_file_ready {source target : Folder} {name : Text} (present : source name ≠ none)
    (free : target name = none) :
    moveFile false source target name =
      some (Function.update source name none, Function.update target name (source name)) := by
  simp [moveFile, present, free]

theorem put_back_held (name : Text) (goes : faults .putBack name = false) (replaced : Bool)
    (disk : Disk) (original : Option Bytes) (free : disk.held name = none)
    (aside : replaced = true → disk.superseded name = original ∧ original ≠ none)
    (empty : replaced = false → original = none) :
    (putBack faults name replaced disk).held name = original := by
  unfold putBack
  cases replaced with
  | false => rw [if_neg Bool.false_ne_true, free, empty rfl]
  | true =>
      obtain ⟨same, present⟩ := aside rfl
      rw [if_pos rfl, goes, move_file_ready (by rw [same]; exact present) free]
      simp [same]

theorem put_back_incoming (name : Text) (replaced : Bool) (disk : Disk) :
    (putBack faults name replaced disk).incoming = disk.incoming := by
  unfold putBack
  split_ifs
  · cases moved : moveFile (faults .putBack name) disk.superseded disk.held name with
    | none => rfl
    | some pair => rfl
  · rfl

/-- Putting back what was set aside under a name leaves everything held as it was. -/
theorem put_back_restores (name : Text) (disk wound : Disk) (goes : faults .putBack name = false)
    (free : wound.held name = none)
    (kept : wound.superseded name = (setAside faults name disk).2.superseded name)
    (empty : (setAside faults name disk).1 = false → disk.held name = none)
    (elsewhere : ∀ other ≠ name, wound.held other = disk.held other) :
    (putBack faults name (setAside faults name disk).1 wound).held = disk.held := by
  funext other
  by_cases same : other = name
  · subst same
    apply put_back_held _ goes _ _ _ free
    · intro replaced
      rcases @set_aside_held faults other disk with ⟨_, _, aside, present⟩ | ⟨untouched, _⟩
      · exact ⟨kept.trans aside, present⟩
      · rw [untouched] at replaced
        cases replaced
    · exact empty
  · have frame := congrArg Prod.fst (@put_back_slot faults name other
      (setAside faults name disk).1 wound same)
    exact frame.trans (elsewhere other same)

theorem take_back_ready (name : Text) (disk : Disk) (goes : faults .takeBack name = false)
    (here : disk.held name ≠ none) (gone : disk.incoming name = none) :
    takeBack faults name disk = { disk with
      held := Function.update disk.held name none
      incoming := Function.update disk.incoming name (disk.held name) } := by
  rw [takeBack, goes, move_file_ready here gone]

theorem stuck_restores (name : Text) (disk : Disk) (goes : faults .putBack name = false) :
    (putBack faults name (setAside faults name disk).1 (setAside faults name disk).2).held =
      disk.held := by
  rcases @set_aside_held faults name disk with ⟨replaced, free, _, _⟩ | ⟨untouched, held⟩
  · apply put_back_restores name disk _ goes free rfl
    · intro quiet
      rw [replaced] at quiet
      cases quiet
    · intro other apart
      exact congrArg Prod.fst (@set_aside_slot faults name other disk apart)
  · rw [untouched, putBack, if_neg Bool.false_ne_true, held]

theorem taken_back_restores (name : Text) (disk : Disk) (moved : Folder × Folder)
    (placed : moveFile (faults .place name) (setAside faults name disk).2.incoming
      (setAside faults name disk).2.held name = some moved)
    (goes : faults .putBack name = false ∧ faults .takeBack name = false) (last : Disk)
    (held : last.held = (placedDisk faults name disk moved).held)
    (came : last.incoming = (placedDisk faults name disk moved).incoming)
    (waits : last.superseded name = (placedDisk faults name disk moved).superseded name) :
    (putBack faults name (setAside faults name disk).1 (takeBack faults name last)).held =
        disk.held ∧
      (putBack faults name (setAside faults name disk).1 (takeBack faults name last)).incoming =
        disk.incoming := by
  obtain ⟨arrived, present, taken⟩ := placed_disk_here name disk moved placed
  have here : last.held name ≠ none := by
    rw [held, arrived]
    exact present
  have gone : last.incoming name = none := (congrFun came name).trans taken
  rw [take_back_ready name last goes.2 here gone, put_back_incoming]
  constructor
  · refine put_back_restores name disk _ goes.1 (Function.update_self ..) waits ?_ ?_
    · intro untouched
      rcases @set_aside_held faults name disk with ⟨replaced, _, _, _⟩ | ⟨_, same⟩
      · rw [untouched] at replaced
        cases replaced
      · rw [← same]
        exact (move_file_some placed).2.1
    · intro other apart
      have elsewhere : Function.update last.held name none other = last.held other :=
        Function.update_of_ne apart none last.held
      exact elsewhere.trans ((congrFun held other).trans
        (congrArg Prod.fst (placed_disk_slot name disk moved other apart placed)))
  · funext other
    by_cases same : other = name
    · subst same
      exact (Function.update_self ..).trans ((congrFun held other).trans arrived)
    · have elsewhere : Function.update last.incoming name (last.held name) other =
          last.incoming other := Function.update_of_ne same _ _
      exact elsewhere.trans ((congrFun came other).trans
        (congrArg (·.2.1) (placed_disk_slot name disk moved other same placed)))

/-- A swap that fails leaves what was held and what came in, when its undoing goes through. -/
theorem swap_undone (names : List Text) (undoes : Undoes faults names) (distinct : names.Nodup)
    (disk : Disk) (failed : (swapIntoPlace faults names disk).1 = none) :
    (swapIntoPlace faults names disk).2.held = disk.held ∧
      (swapIntoPlace faults names disk).2.incoming = disk.incoming := by
  induction names generalizing disk with
  | nil => cases failed
  | cons name rest induction =>
      obtain ⟨fresh, others⟩ := List.nodup_cons.mp distinct
      have goes := undoes name (List.mem_cons_self ..)
      rcases @swap_cons faults name rest disk with
          ⟨_, outcome⟩ | ⟨moved, placed, ⟨others, last, _, outcome⟩ | ⟨last, later, outcome⟩⟩
      · rw [outcome]
        refine ⟨stuck_restores name disk goes.1, ?_⟩
        rw [put_back_incoming, set_aside_incoming]
      · rw [outcome] at failed
        cases failed
      · have undoesRest : Undoes faults rest := fun other member =>
          undoes other (List.mem_cons_of_mem _ member)
        have deeper := induction undoesRest others (placedDisk faults name disk moved)
        have frame := @swap_slot faults rest (placedDisk faults name disk moved) name fresh
        rw [later] at deeper frame
        obtain ⟨held, came⟩ := deeper rfl
        rw [outcome]
        exact taken_back_restores name disk moved placed goes last held came
          (congrArg (·.2.2) frame)

theorem put_back_staged (name : Text) (replaced : Bool) (disk : Disk) :
    (putBack faults name replaced disk).staged = disk.staged := by
  unfold putBack
  split_ifs
  · cases moved : moveFile (faults .putBack name) disk.superseded disk.held name with
    | none => rfl
    | some pair => rfl
  · rfl

theorem take_back_staged (name : Text) (disk : Disk) :
    (takeBack faults name disk).staged = disk.staged := by
  unfold takeBack
  cases moved : moveFile (faults .takeBack name) disk.held disk.incoming name with
  | none => rfl
  | some pair => rfl

theorem set_aside_staged (name : Text) (disk : Disk) :
    (setAside faults name disk).2.staged = disk.staged := by
  cases moved : moveFile (faults .setAside name) disk.held
      (removeFile (faults .sweep name) disk.superseded name) name with
  | none => simp [setAside, moved]
  | some pair => simp [setAside, moved]

theorem swap_staged (names : List Text) (disk : Disk) :
    (swapIntoPlace faults names disk).2.staged = disk.staged := by
  induction names generalizing disk with
  | nil => rfl
  | cons name rest induction =>
      have aside := @set_aside_staged faults name disk
      rcases @swap_cons faults name rest disk with
          ⟨_, outcome⟩ | ⟨moved, _, ⟨others, last, later, outcome⟩ | ⟨last, later, outcome⟩⟩
      · rw [outcome, put_back_staged, aside]
      · have deeper := induction (placedDisk faults name disk moved)
        rw [later] at deeper
        rw [outcome]
        exact deeper.trans aside
      · have deeper := induction (placedDisk faults name disk moved)
        rw [later] at deeper
        rw [outcome, put_back_staged, take_back_staged]
        exact deeper.trans aside

theorem swap_placed (names : List Text) (distinct : names.Nodup) (disk : Disk)
    (success : (swapIntoPlace faults names disk).1 ≠ none) (name : Text) (member : name ∈ names) :
    (swapIntoPlace faults names disk).2.held name = disk.incoming name := by
  induction names generalizing disk with
  | nil => cases member
  | cons first rest induction =>
      obtain ⟨fresh, others⟩ := List.nodup_cons.mp distinct
      rcases @swap_cons faults first rest disk with
          ⟨_, outcome⟩ | ⟨moved, placed, ⟨names, last, later, outcome⟩ | ⟨last, _, outcome⟩⟩
      · rw [outcome] at success
        exact absurd rfl success
      · rw [outcome]
        by_cases same : name = first
        · subst same
          have frame := @swap_slot faults rest (placedDisk faults name disk moved) name fresh
          rw [later] at frame
          exact (congrArg Prod.fst frame).trans (placed_disk_here name disk moved placed).1
        · have within := (List.mem_cons.mp member).resolve_left same
          have deeper := induction others (placedDisk faults first disk moved)
            (by rw [later]; exact Option.some_ne_none _) within
          rw [later] at deeper
          exact deeper.trans (congrArg (·.2.1) (placed_disk_slot first disk moved name same placed))
      · rw [outcome] at success
        exact absurd rfl success

theorem placed_disk_incoming (first : Text) (disk : Disk) (moved : Folder × Folder)
    (placed : moveFile (faults .place first) (setAside faults first disk).2.incoming
      (setAside faults first disk).2.held first = some moved) (other : Text) (bytes : Bytes)
    (inside : (placedDisk faults first disk moved).incoming other = some bytes) :
    disk.incoming other = some bytes := by
  by_cases same : other = first
  · rw [same, (placed_disk_here first disk moved placed).2.2] at inside
    cases inside
  · exact (congrArg (·.2.1) (placed_disk_slot first disk moved other same placed)).symm.trans inside

theorem take_back_incoming (name : Text) (disk : Disk) :
    (takeBack faults name disk).incoming name = disk.incoming name ∨
      (takeBack faults name disk).incoming name = disk.held name := by
  unfold takeBack
  cases back : moveFile (faults .takeBack name) disk.held disk.incoming name with
  | none => exact Or.inl rfl
  | some pair =>
      obtain ⟨_, _, _, target⟩ := move_file_some back
      simp only [target, Function.update_self, or_true]

theorem swap_incoming (names : List Text) (distinct : names.Nodup) (disk : Disk) (name : Text)
    (bytes : Bytes) (present : (swapIntoPlace faults names disk).2.incoming name = some bytes) :
    disk.incoming name = some bytes := by
  induction names generalizing disk with
  | nil => exact present
  | cons first rest induction =>
      obtain ⟨fresh, others⟩ := List.nodup_cons.mp distinct
      rcases @swap_cons faults first rest disk with
          ⟨_, outcome⟩ | ⟨moved, placed, ⟨names, last, later, outcome⟩ | ⟨last, later, outcome⟩⟩
      · rwa [outcome, put_back_incoming, set_aside_incoming] at present
      · have deeper := induction others (placedDisk faults first disk moved)
        rw [later] at deeper
        rw [outcome] at present
        exact placed_disk_incoming first disk moved placed name bytes (deeper present)
      · have deeper := induction others (placedDisk faults first disk moved)
        have frame := @swap_slot faults rest (placedDisk faults first disk moved) first fresh
        rw [later] at deeper frame
        rw [outcome, put_back_incoming] at present
        by_cases same : name = first
        · subst same
          rcases @take_back_incoming faults name last with kept | taken
          · rw [kept] at present
            exact placed_disk_incoming name disk moved placed name bytes (deeper present)
          · -- What was taken back is what had been placed.
            rw [taken] at present
            have arrived := (placed_disk_here name disk moved placed).1
            exact (((congrArg Prod.fst frame).trans arrived).symm).trans present
        · have slot := @take_back_slot faults first name last same
          exact placed_disk_incoming first disk moved placed name bytes
            (deeper ((congrArg (·.2.1) slot).symm.trans present))

end Frame

end Omnibus.Downloads
