import Mathlib.Data.List.Nodup
import Omnibus.Downloads.Manager
import Omnibus.Library.Runs

/-!
# A replacement keeps the book on the device

While a replacement is in flight the copy it stands in for is held whole, and somebody is still to
install it or to put the old record back. What is complete, in memory, in the store or on its way
there, names files the device holds.
-/

namespace Omnibus.Downloads

open Omnibus.Library.Strings Omnibus.Library.Runs

def skeleton (files : List DownloadFile) : List (Int × Text) :=
  files.map fun file => (file.ordinal, file.name)

theorem skeleton_names (files : List DownloadFile) :
    (skeleton files).map Prod.snd = files.map (·.name) := by
  rw [skeleton, List.map_map]
  rfl

theorem skeleton_ordinals (files : List DownloadFile) :
    (skeleton files).map Prod.fst = files.map (·.ordinal) := by
  rw [skeleton, List.map_map]
  rfl

section Invariant

variable (previous : DownloadRecord) (plan : Plan)

def Old (disk : Disk) : Prop :=
  ∀ file ∈ previous.files, disk.held file.name = some (.kept file.name)

def New (disk : Disk) : Prop :=
  ∀ file ∈ plan.files, ∃ bytes, disk.held file.name = some bytes ∧ bytes.Brought file.ordinal

/-- The record names all the previous files or all the new ones, and the device holds them. -/
def Intact (record : DownloadRecord) (disk : Disk) : Prop :=
  (skeleton record.files = skeleton previous.files ∧ Old previous disk) ∨
    (skeleton record.files = skeleton plan.files ∧ New plan disk)

def Stage.givesUp : Stage → Bool
  | .giving _ _ _ => true
  | _ => false

def Stage.absent : Stage → Bool
  | .planning _ _ => true
  | .calling _ _ _ => true
  | .reading _ => true
  | .read _ _ => true
  | .cancelling _ => true
  | .removing => true
  | .removed => true
  | _ => false

def Stage.staging : Stage → Option (Int × Text)
  | .checked ordinal name _ _ => some (ordinal, name)
  | .cleared ordinal name => some (ordinal, name)
  | _ => none

/-- The bytes under the incoming names of the done parts are theirs. -/
def Arrived (files : List DownloadFile) (disk : Disk) : Prop :=
  ∀ file ∈ files, file.done = true → ∀ bytes, disk.incoming file.name = some bytes →
    bytes.Brought file.ordinal

structure Standing (record : DownloadRecord) (m : Manager) : Prop where
  replacing : m.replacing = some previous
  running : record.state = .running
  shape : skeleton record.files = skeleton plan.files
  old : Old previous m.disk
  arrived : Arrived record.files m.disk
  guarded : m.installing = true → m.abandoned = true
  unwritten : ∀ task ∈ m.tasks, ∀ write ∈ task.write, write.state ≠ .complete
  stored : ⟨none, .marking⟩ ∈ m.tasks → ∀ stored ∈ m.stored, stored.state ≠ .complete

structure Resting (record : DownloadRecord) (m : Manager) : Prop where
  replacing : m.replacing = none
  complete : record.state = .complete
  intact : Intact previous plan record m.disk

/-- Somebody puts back what is given up. -/
def Given (m : Manager) : Prop :=
  m.abandoned = true → ∃ task ∈ m.tasks, task.stage.givesUp = true

/-- Somebody installs what is done, or puts it back. -/
def Waited (record : DownloadRecord) (m : Manager) : Prop :=
  record.allDone = true → ∃ task ∈ m.tasks, task.stage = .marking ∨ task.stage.givesUp = true

structure Sound (m : Manager) : Prop where
  store : ∀ stored ∈ m.stored, stored.state = .complete → Intact previous plan stored m.disk
  writes : ∀ task ∈ m.tasks, ∀ write ∈ task.write, write.state = .complete →
    Intact previous plan write m.disk
  staged : ∀ ordinal, ∀ bytes ∈ m.disk.staged ordinal, bytes.Brought ordinal
  named : ∀ task ∈ m.tasks, ∀ part ∈ task.stage.staging, part ∈ skeleton plan.files
  started : ∀ task ∈ m.tasks, task.stage.absent = false

structure Going (m : Manager) : Prop where
  sound : Sound previous plan m
  memory : ∃ record, m.record = some record ∧
    ((Standing previous plan record m ∧ Given m ∧ Waited record m) ∨
      Resting previous plan record m)

structure Early (m : Manager) : Prop where
  record : m.record = some previous
  stored : m.stored = some previous
  replacing : m.replacing = none
  live : m.live = []
  old : Old previous m.disk
  staged : ∀ ordinal, m.disk.staged ordinal = none
  installing : m.installing = false
  tasks : ∀ task ∈ m.tasks, task.write = none ∧
    (task.stage = .planning (some previous) plan ∨ task.stage = .calling (some previous) plan [] ∨
      ∃ captured, task.stage = .listing captured)
  once : m.tasks.countP (·.stage.absent) ≤ 1

def Kept (m : Manager) : Prop := Early previous plan m ∨ Going previous plan m

end Invariant

/-- An update that would take a complete record back to running. -/
def Manager.Parkable (m : Manager) : Prop := ∀ record ∈ m.record, record.state ≠ .complete

/-- When the next segment of a call costs the reader nothing. -/
def Stage.Safe (outcome : Outcome) (m : Manager) : Stage → Prop
  | .marking => ∀ record ∈ m.record, Undoes outcome.faults (record.files.map (·.name))
  | .giving _ _ _ => m.replacing ≠ none
  | .stopped ordinal .transient resumeData _ =>
      resumeData = false → m.record.bind (·.file ordinal) ≠ none → m.Parkable
  | .parking _ _ => m.Parkable
  | _ => True

/-- The condition on a step: the process dies only while the store holds a complete record of the
whole book, the undoing of a failed swap goes through, a failure gives up only what is being
replaced, and an interrupted transfer is parked only under a record that is not complete. The run
is of one re-download, and nothing is cancelled or removed. -/
def Act.Safe (m : Manager) : Act → Prop
  | .run index outcome => ∀ task ∈ m.tasks[index]?, task.write = none → task.stage.Safe outcome m
  | .kill _ onlyPart => onlyPart = false ∧ ∃ stored ∈ m.stored, stored.state = .complete
  | .land _ _ _ => True
  | .drop _ _ _ _ => True
  | .reconnect => True
  | _ => False

instance (m : Manager) : Decidable m.Parkable :=
  inferInstanceAs (Decidable (∀ record ∈ m.record, _))

instance Stage.Safe.decidable (outcome : Outcome) (m : Manager) :
    (stage : Stage) → Decidable (stage.Safe outcome m)
  | .marking => inferInstanceAs (Decidable (∀ record ∈ m.record, _))
  | .giving _ _ _ => inferInstanceAs (Decidable (m.replacing ≠ none))
  | .stopped _ .transient _ _ => inferInstanceAs (Decidable (_ → _ → m.Parkable))
  | .stopped _ .terminal _ _ => isTrue trivial
  | .parking _ _ => inferInstanceAs (Decidable m.Parkable)
  | .planning _ _ => isTrue trivial
  | .calling _ _ _ => isTrue trivial
  | .opening _ _ => isTrue trivial
  | .landed _ _ _ => isTrue trivial
  | .checked _ _ _ _ => isTrue trivial
  | .cleared _ _ => isTrue trivial
  | .settled _ => isTrue trivial
  | .reading _ => isTrue trivial
  | .read _ _ => isTrue trivial
  | .parked => isTrue trivial
  | .listing _ => isTrue trivial
  | .restarting _ _ => isTrue trivial
  | .cancelling _ => isTrue trivial
  | .removing => isTrue trivial
  | .removed => isTrue trivial

instance Act.Safe.decidable (m : Manager) : (act : Act) → Decidable (act.Safe m)
  | .run index outcome => inferInstanceAs
      (Decidable (∀ task ∈ m.tasks[index]?, task.write = none → task.stage.Safe outcome m))
  | .kill _ _ => inferInstanceAs
      (Decidable (_ = false ∧ ∃ stored ∈ m.stored, stored.state = .complete))
  | .land _ _ _ => isTrue trivial
  | .drop _ _ _ _ => isTrue trivial
  | .reconnect => isTrue trivial
  | .start _ => isFalse id
  | .redownload _ => isFalse id
  | .cancel => isFalse id
  | .remove => isFalse id

theorem remove_file_less (fault : Bool) (folder : Folder) (name other : Text) (bytes : Bytes)
    (present : removeFile fault folder name other = some bytes) : folder other = some bytes := by
  rw [removeFile] at present
  split_ifs at present
  · exact present
  · by_cases same : other = name
    · simp [same] at present
    · rwa [Function.update_of_ne same] at present

section Sweeping

variable (faults : Faults)

theorem sweep_replaced_held (installed replaced : List Text)
    (old : Option DownloadRecord) (disk : Disk) (name : Text) (member : name ∈ installed) :
    (Manager.sweepReplaced faults installed replaced old disk).held name = disk.held name := by
  have outside : ∀ file ∈ ((old.map (·.files)).getD []).filter
      (fun file => file.name ∉ installed), file.name ≠ name := by
    intro file listed same
    have apart := (List.mem_filter.mp listed).2
    rw [same] at apart
    simp [member] at apart
  show ((((old.map (·.files)).getD []).filter fun file => file.name ∉ installed).foldl
    (Manager.sweepFile faults) disk).held name = disk.held name
  generalize ((old.map (·.files)).getD []).filter (fun file => file.name ∉ installed) = gone
    at outside
  induction gone generalizing disk with
  | nil => rfl
  | cons file rest induction =>
      rw [List.foldl_cons,
        induction _ fun other later => outside other (List.mem_cons_of_mem _ later)]
      exact remove_file_of_ne _ _ _ _ (Ne.symm (outside file (List.mem_cons_self ..)))

theorem sweep_incoming (files : List DownloadFile) (disk : Disk) (name : Text) (bytes : Bytes)
    (present : (files.foldl (Manager.sweepFile faults) disk).incoming name = some bytes) :
    disk.incoming name = some bytes := by
  induction files generalizing disk with
  | nil => exact present
  | cons file rest induction => exact remove_file_less _ _ _ _ _ (induction _ present)

theorem sweep_staged (files : List DownloadFile) (disk : Disk) :
    (files.foldl (Manager.sweepFile faults) disk).staged = disk.staged := by
  induction files generalizing disk with
  | nil => rfl
  | cons file rest induction => exact induction _

theorem sweep_replaced_staged (installed replaced : List Text)
    (old : Option DownloadRecord) (disk : Disk) :
    (Manager.sweepReplaced faults installed replaced old disk).staged = disk.staged :=
  sweep_staged faults _ disk

theorem sweep_replaced_incoming (installed replaced : List Text) (old : Option DownloadRecord)
    (disk : Disk) (name : Text) (bytes : Bytes)
    (present : (Manager.sweepReplaced faults installed replaced old disk).incoming name =
      some bytes) : disk.incoming name = some bytes :=
  sweep_incoming faults _ disk name bytes present

end Sweeping

theorem discard_incoming_less (files : List DownloadFile) (disk : Disk) (name : Text)
    (bytes : Bytes) (present : (Manager.discardIncoming files disk).incoming name = some bytes) :
    disk.incoming name = some bytes := by
  simp only [Manager.discardIncoming] at present
  generalize disk.incoming = folder at present ⊢
  induction files generalizing folder with
  | nil => exact present
  | cons file rest induction =>
      have before : Function.update folder file.name none name = some bytes := induction _ present
      by_cases same : name = file.name
      · rw [same, Function.update_self] at before
        cases before
      · rwa [Function.update_of_ne same] at before

section Update

variable {previous : DownloadRecord} {plan : Plan} {m : Manager}

theorem intact_congr {record other : DownloadRecord} {disk : Disk}
    (same : skeleton other.files = skeleton record.files)
    (intact : Intact previous plan record disk) : Intact previous plan other disk := by
  rcases intact with ⟨shape, old⟩ | ⟨shape, new⟩
  · exact Or.inl ⟨same.trans shape, old⟩
  · exact Or.inr ⟨same.trans shape, new⟩

theorem skeleton_map (files : List DownloadFile) (change : DownloadFile → DownloadFile)
    (same : ∀ file, (change file).ordinal = file.ordinal ∧ (change file).name = file.name) :
    skeleton (files.map change) = skeleton files := by
  rw [skeleton, skeleton, List.map_map]
  apply List.map_congr_left
  intro file _
  exact Prod.ext (same file).1 (same file).2

theorem skeleton_marked (ordinal : Int) (record : DownloadRecord) :
    skeleton (record.marked ordinal).files = skeleton record.files := by
  apply skeleton_map
  intro file
  split_ifs <;> exact ⟨rfl, rfl⟩

/-- Nothing that matters to a replacement differs, the suspended calls apart. -/
structure Unmoved (m other : Manager) : Prop where
  record : other.record = m.record
  stored : other.stored = m.stored
  replacing : other.replacing = m.replacing
  abandoned : other.abandoned = m.abandoned
  held : other.disk.held = m.disk.held
  incoming : other.disk.incoming = m.disk.incoming
  staged : ∀ ordinal, ∀ bytes ∈ other.disk.staged ordinal,
    bytes ∈ m.disk.staged ordinal ∨ bytes.Brought ordinal
  installing : other.installing = true → m.installing = true

/-- A call that waits for no store write and is not about to install. -/
structure Idle (plan : Plan) (task : Task) : Prop where
  write : task.write = none
  absent : task.stage.absent = false
  unmarked : task.stage ≠ .marking
  part : ∀ part ∈ task.stage.staging, part ∈ skeleton plan.files

theorem intact_disk {record : DownloadRecord} {disk other : Disk} (held : other.held = disk.held)
    (intact : Intact previous plan record disk) : Intact previous plan record other := by
  rcases intact with ⟨shape, old⟩ | ⟨shape, new⟩
  · exact Or.inl ⟨shape, fun file member => by rw [held]; exact old file member⟩
  · exact Or.inr ⟨shape, fun file member => by rw [held]; exact new file member⟩

section Frame

variable {other : Manager} (unmoved : Unmoved m other)
  (fewer : ∀ task ∈ other.tasks, task ∈ m.tasks ∨ Idle plan task)

include unmoved fewer

theorem sound_frame (sound : Sound previous plan m) : Sound previous plan other where
  store := by
    intro stored member complete
    rw [unmoved.stored] at member
    exact intact_disk unmoved.held (sound.store stored member complete)
  writes := by
    intro task member write waits complete
    rcases fewer task member with before | idle
    · exact intact_disk unmoved.held (sound.writes task before write waits complete)
    · rw [idle.write] at waits
      cases waits
  staged := by
    intro ordinal bytes present
    rcases unmoved.staged ordinal bytes present with before | fetched
    · exact sound.staged ordinal bytes before
    · exact fetched
  named := by
    intro task member part staging
    rcases fewer task member with before | idle
    · exact sound.named task before part staging
    · exact idle.part part staging
  started := by
    intro task member
    rcases fewer task member with before | idle
    · exact sound.started task before
    · exact idle.absent

theorem standing_frame {record : DownloadRecord} (standing : Standing previous plan record m) :
    Standing previous plan record other where
  replacing := unmoved.replacing.trans standing.replacing
  running := standing.running
  shape := standing.shape
  old := fun file member => by rw [unmoved.held]; exact standing.old file member
  arrived := fun file member done bytes present =>
    standing.arrived file member done bytes (by rwa [← unmoved.incoming])
  guarded := fun flag => by
    rw [unmoved.abandoned]
    exact standing.guarded (unmoved.installing flag)
  unwritten := by
    intro task member write waits
    rcases fewer task member with before | idle
    · exact standing.unwritten task before write waits
    · rw [idle.write] at waits
      cases waits
  stored := by
    intro member
    rw [unmoved.stored]
    rcases fewer _ member with before | idle
    · exact standing.stored before
    · exact absurd rfl idle.unmarked

omit fewer in
theorem resting_frame {record : DownloadRecord} (resting : Resting previous plan record m) :
    Resting previous plan record other where
  replacing := unmoved.replacing.trans resting.replacing
  complete := resting.complete
  intact := intact_disk unmoved.held resting.intact

variable (attended : ∀ task ∈ m.tasks, task.stage.givesUp = true → task ∈ other.tasks)

include attended

omit fewer in
theorem given_frame (given : Given m) : Given other := by
  intro abandoned
  rw [unmoved.abandoned] at abandoned
  obtain ⟨task, member, gives⟩ := given abandoned
  exact ⟨task, attended task member gives, gives⟩

theorem going_frame (marked : ∀ task ∈ m.tasks, task.stage = .marking → task ∈ other.tasks)
    (going : Going previous plan m) : Going previous plan other where
  sound := sound_frame unmoved fewer going.sound
  memory := by
    obtain ⟨record, here, ⟨standing, given, waited⟩ | resting⟩ := going.memory
    · refine ⟨record, unmoved.record.trans here, Or.inl ⟨standing_frame unmoved fewer standing,
        given_frame unmoved attended given, ?_⟩⟩
      intro done
      obtain ⟨task, member, installs | gives⟩ := waited done
      · exact ⟨task, marked task member installs, Or.inl installs⟩
      · exact ⟨task, attended task member gives, Or.inr gives⟩
    · exact ⟨record, unmoved.record.trans here, Or.inr (resting_frame unmoved resting)⟩

end Frame

/-- What an install starts from, when its own call is the one that was awaited. -/
structure Nearly (previous : DownloadRecord) (plan : Plan) (m : Manager) : Prop where
  sound : Sound previous plan m
  memory : ∃ record, m.record = some record ∧
    ((Standing previous plan record m ∧ Given m) ∨ Resting previous plan record m)

theorem Going.nearly (going : Going previous plan m) : Nearly previous plan m where
  sound := going.sound
  memory := by
    obtain ⟨record, here, ⟨standing, given, _⟩ | resting⟩ := going.memory
    · exact ⟨record, here, Or.inl ⟨standing, given⟩⟩
    · exact ⟨record, here, Or.inr resting⟩

theorem unmoved_self (tasks : List Task) : Unmoved m { m with tasks } where
  record := rfl
  stored := rfl
  replacing := rfl
  abandoned := rfl
  held := rfl
  incoming := rfl
  staged := fun _ _ present => Or.inl present
  installing := id

theorem mem_erase_other {index : Nat} {task other : Task} (here : m.tasks[index]? = some task)
    (member : other ∈ m.tasks) (apart : other ≠ task) : other ∈ m.tasks.eraseIdx index := by
  obtain ⟨place, found⟩ := List.mem_iff_getElem?.mp member
  rw [List.mem_eraseIdx_iff_getElem?]
  refine ⟨place, ?_, found⟩
  intro equal
  subst equal
  exact apart (Option.some.inj (found.symm.trans here))

theorem going_erase {index : Nat} {task : Task} (here : m.tasks[index]? = some task)
    (unmarked : task.stage ≠ .marking) (keeps : task.stage.givesUp = false)
    (going : Going previous plan m) :
    Going previous plan { m with tasks := m.tasks.eraseIdx index } := by
  apply going_frame (unmoved_self _) _ _ _ going
  · exact fun other member => Or.inl (List.mem_of_mem_eraseIdx member)
  · intro other member gives
    apply mem_erase_other here member
    intro equal
    subst equal
    rw [keeps] at gives
    cases gives
  · intro other member marking
    apply mem_erase_other here member
    intro equal
    subst equal
    exact unmarked marking

theorem nearly_erase {index : Nat} {task : Task} (here : m.tasks[index]? = some task)
    (keeps : task.stage.givesUp = false) (going : Going previous plan m) :
    Nearly previous plan { m with tasks := m.tasks.eraseIdx index } := by
  have fewer : ∀ other ∈ m.tasks.eraseIdx index, other ∈ m.tasks ∨ Idle plan other :=
    fun other member => Or.inl (List.mem_of_mem_eraseIdx member)
  have unmoved : Unmoved m { m with tasks := m.tasks.eraseIdx index } := unmoved_self _
  refine ⟨sound_frame unmoved fewer going.sound, ?_⟩
  obtain ⟨record, found, ⟨standing, given, _⟩ | resting⟩ := going.memory
  · refine ⟨record, found, Or.inl ⟨standing_frame unmoved fewer standing, ?_⟩⟩
    apply given_frame unmoved _ given
    intro other member gives
    apply mem_erase_other here member
    intro equal
    subst equal
    rw [keeps] at gives
    cases gives
  · exact ⟨record, found, Or.inr (resting_frame unmoved resting)⟩

theorem mem_spawned {task last : Task} (member : task ∈ m.tasks ++ [last]) :
    task ∈ m.tasks ∨ task = last :=
  (List.mem_append.mp member).imp id List.mem_singleton.mp

theorem sound_spawn {task : Task} (sound : Sound previous plan m)
    (written : ∀ write ∈ task.write, write.state = .complete → Intact previous plan write m.disk)
    (part : ∀ part ∈ task.stage.staging, part ∈ skeleton plan.files)
    (absent : task.stage.absent = false) :
    Sound previous plan (Manager.spawn (m, some task)) where
  store := sound.store
  writes := by
    intro other member write waits complete
    rcases mem_spawned member with before | rfl
    · exact sound.writes other before write waits complete
    · exact written write waits complete
  staged := sound.staged
  named := by
    intro other member place staging
    rcases mem_spawned member with before | rfl
    · exact sound.named other before place staging
    · exact part place staging
  started := by
    intro other member
    rcases mem_spawned member with before | rfl
    · exact sound.started other before
    · exact absent

theorem idle_call {stage : Stage} (absent : stage.absent = false) (unmarked : stage ≠ .marking)
    (part : ∀ part ∈ stage.staging, part ∈ skeleton plan.files) :
    ∀ task ∈ some (⟨none, stage⟩ : Task), Idle plan task := by
  intro task last
  obtain rfl := Option.some.inj last
  exact ⟨rfl, absent, unmarked, part⟩

theorem going_idle {other : Manager} {next : Option Task} (unmoved : Unmoved m other)
    (tasks : other.tasks = m.tasks) (idle : ∀ task ∈ next, Idle plan task)
    (going : Going previous plan m) : Going previous plan (Manager.spawn (other, next)) := by
  have appended : (Manager.spawn (other, next)).tasks = m.tasks ++ next.toList := by
    rw [Manager.spawn, tasks]
  refine going_frame (m := m) ⟨unmoved.record, unmoved.stored, unmoved.replacing,
    unmoved.abandoned, unmoved.held, unmoved.incoming, unmoved.staged, unmoved.installing⟩
    ?_ ?_ ?_ going
  · intro task member
    rw [appended, List.mem_append, Option.mem_toList] at member
    exact member.imp id (idle task)
  · intro task member _
    rw [appended]
    exact List.mem_append_left _ member
  · intro task member _
    rw [appended]
    exact List.mem_append_left _ member

theorem going_of_abandoned (nearly : Nearly previous plan m) (abandoned : m.abandoned = true) :
    Going previous plan m where
  sound := nearly.sound
  memory := by
    obtain ⟨record, here, ⟨standing, given⟩ | resting⟩ := nearly.memory
    · refine ⟨record, here, Or.inl ⟨standing, given, fun _ => ?_⟩⟩
      obtain ⟨task, member, gives⟩ := given abandoned
      exact ⟨task, member, Or.inr gives⟩
    · exact ⟨record, here, Or.inr resting⟩

theorem unmoved_released (inInstall : Bool) : Unmoved m (m.released inInstall) := by
  rw [Manager.released]
  split_ifs
  · exact { unmoved_self m.tasks with installing := fun flag => by cases flag }
  · exact unmoved_self m.tasks

theorem released_tasks (inInstall : Bool) : (m.released inInstall).tasks = m.tasks := by
  rw [Manager.released]
  split_ifs <;> rfl

theorem abandon_going (message : Text) (inInstall : Bool) (nearly : Nearly previous plan m) :
    Going previous plan (Manager.spawn (m.abandon message inInstall)) := by
  by_cases abandoned : m.abandoned = true
  · rw [Manager.abandon, if_pos abandoned]
    exact going_idle (unmoved_released inInstall) (released_tasks inInstall)
      (fun task none => by cases none) (going_of_abandoned nearly abandoned)
  · rw [Manager.abandon, if_neg abandoned]
    let giving : Task := ⟨none, .giving message inInstall m.live⟩
    have idle : Idle plan giving := ⟨rfl, rfl, by simp [giving], by simp [giving, Stage.staging]⟩
    have fewer : ∀ task ∈ m.tasks ++ [giving], task ∈ m.tasks ∨ Idle plan task := by
      intro task member
      rcases List.mem_append.mp member with before | last
      · exact Or.inl before
      · rw [List.mem_singleton.mp last]
        exact Or.inr idle
    have last : ∃ task ∈ m.tasks ++ [giving], task.stage.givesUp = true :=
      ⟨giving, List.mem_append_right _ (List.mem_singleton_self _), rfl⟩
    have unmoved : Unmoved m { m with tasks := m.tasks ++ [giving] } := unmoved_self _
    have sound := sound_frame unmoved fewer nearly.sound
    refine ⟨⟨sound.store, sound.writes, sound.staged, sound.named, sound.started⟩, ?_⟩
    obtain ⟨record, here, ⟨standing, _⟩ | resting⟩ := nearly.memory
    · have framed := standing_frame unmoved fewer standing
      refine ⟨record, here, Or.inl ⟨⟨framed.replacing, framed.running, framed.shape, framed.old,
        framed.arrived, fun _ => rfl, framed.unwritten, framed.stored⟩, fun _ => last, fun _ => ?_⟩⟩
      obtain ⟨task, member, gives⟩ := last
      exact ⟨task, member, Or.inr gives⟩
    · have framed := resting_frame unmoved resting
      exact ⟨record, here, Or.inr ⟨framed.replacing, framed.complete, framed.intact⟩⟩

/-- What an update may do to a record: its files stay, and a part it finishes has its bytes. -/
structure Mild (m : Manager) (disk : Disk) (change : DownloadRecord → DownloadRecord)
    (next : Stage) : Prop where
  held : disk.held = m.disk.held
  staged : ∀ ordinal, ∀ bytes ∈ disk.staged ordinal, bytes ∈ m.disk.staged ordinal
  shape : ∀ record, skeleton (change record).files = skeleton record.files
  state : ∀ record ∈ m.record, (change record).state = record.state
  arrived : ∀ record ∈ m.record, skeleton record.files = skeleton plan.files →
    Arrived record.files m.disk → Arrived (change record).files disk
  done : ∀ record, (change record).allDone = true → record.allDone = true ∨ next = .marking
  absent : next.absent = false
  part : ∀ part ∈ next.staging, part ∈ skeleton plan.files

theorem update_going (disk : Disk) (change : DownloadRecord → DownloadRecord) (next : Stage)
    (mild : @Mild plan m disk change next) (going : Going previous plan m) :
    Going previous plan (Manager.spawn (Manager.update change next { m with disk })) := by
  obtain ⟨record, here, phase⟩ := going.memory
  have shape : Manager.spawn (Manager.update change next { m with disk }) =
      { m with
        disk, record := some (change record)
        tasks := m.tasks ++ [⟨some (change record), next⟩] } := by
    simp only [Manager.spawn, Manager.update, here]
    rfl
  have state := mild.state record here
  have sound := going.sound
  rw [shape]
  have written : (change record).state = .complete →
      Intact previous plan (change record) disk := by
    intro complete
    rcases phase with ⟨standing, _, _⟩ | resting
    · rw [state, standing.running] at complete
      cases complete
    · exact intact_disk mild.held (intact_congr (mild.shape record) resting.intact)
  refine ⟨?_, change record, rfl, ?_⟩
  · have updated : Sound previous plan { m with disk, record := some (change record) } := {
      store := fun stored member complete =>
        intact_disk mild.held (sound.store stored member complete)
      writes := fun task member write waits complete =>
        intact_disk mild.held (sound.writes task member write waits complete)
      staged := fun ordinal bytes present =>
        sound.staged ordinal bytes (mild.staged ordinal bytes present)
      named := sound.named
      started := sound.started }
    apply sound_spawn updated _ mild.part mild.absent
    intro write waits complete
    obtain rfl := Option.some.inj waits
    exact written complete
  · rcases phase with ⟨standing, given, waited⟩ | resting
    · refine Or.inl ⟨?_, ?_, ?_⟩
      · exact {
          replacing := standing.replacing
          running := state.trans standing.running
          shape := (mild.shape record).trans standing.shape
          old := fun file member => by
            show disk.held file.name = _
            rw [mild.held]
            exact standing.old file member
          arrived := mild.arrived record here standing.shape standing.arrived
          guarded := standing.guarded
          unwritten := by
            intro task member write waits
            rcases mem_spawned member with before | rfl
            · exact standing.unwritten task before write waits
            · obtain rfl := Option.some.inj waits
              rw [state, standing.running]
              exact fun same => by cases same
          stored := by
            intro member
            rcases mem_spawned member with before | same
            · exact standing.stored before
            · cases same }
      · intro abandoned
        obtain ⟨task, member, gives⟩ := given abandoned
        exact ⟨task, List.mem_append_left _ member, gives⟩
      · intro done
        rcases mild.done record done with before | marking
        · obtain ⟨task, member, attends⟩ := waited before
          exact ⟨task, List.mem_append_left _ member, attends⟩
        · exact ⟨_, List.mem_append_right _ (List.mem_singleton_self _), Or.inl marking⟩
    · exact Or.inr {
        replacing := resting.replacing
        complete := state.trans resting.complete
        intact := intact_disk mild.held (intact_congr (mild.shape record) resting.intact) }

theorem unmoved_discard (ordinal : Int) (staged : Bool) :
    Unmoved m (m.discardStaged ordinal staged) := by
  rw [Manager.discardStaged]
  split_ifs
  · refine { unmoved_self m.tasks with staged := ?_ }
    intro other bytes present
    by_cases same : other = ordinal
    · simp [same] at present
    · exact Or.inl (by simpa [same] using present)
  · exact unmoved_self m.tasks

theorem discard_tasks (ordinal : Int) (staged : Bool) :
    (m.discardStaged ordinal staged).tasks = m.tasks := by
  rw [Manager.discardStaged]
  split_ifs <;> rfl

theorem discard_going (ordinal : Int) (staged : Bool) (going : Going previous plan m) :
    Going previous plan (m.discardStaged ordinal staged) :=
  going_frame (unmoved_discard ordinal staged)
    (fun task member => Or.inl (by rwa [discard_tasks] at member))
    (fun task member _ => by rwa [discard_tasks])
    (fun task member _ => by rwa [discard_tasks]) going

theorem ended_going (going : Going previous plan m) :
    Going previous plan (Manager.spawn (m, none)) :=
  going_idle (unmoved_self m.tasks) rfl (fun _ none => by cases none) going

theorem park_going (ordinal : Int) (message : Text) (parkable : m.Parkable)
    (going : Going previous plan m) :
    Going previous plan (Manager.spawn (m.park ordinal message)) := by
  apply update_going m.disk _ _ _ going
  exact {
    held := rfl
    staged := fun _ _ present => present
    shape := fun _ => rfl
    state := by
      intro record here
      obtain ⟨found, same, ⟨standing, _⟩ | resting⟩ := going.memory
      · obtain rfl := Option.some.inj (same.symm.trans here)
        exact standing.running.symm
      · obtain rfl := Option.some.inj (same.symm.trans here)
        exact absurd resting.complete (parkable found here)
    arrived := fun _ _ _ arrived => arrived
    done := fun _ done => Or.inl done
    absent := rfl
    part := fun _ none => by cases none }

theorem unmoved_resume (resume : Text → Bool) :
    Unmoved m { m with disk := { m.disk with resume } } :=
  ⟨rfl, rfl, rfl, rfl, rfl, rfl, fun _ _ present => Or.inl present, id⟩

theorem hold_going (ordinal : Int) (resumeData : Bool) (message : Text)
    (parkable : resumeData = false → m.record.bind (·.file ordinal) ≠ none → m.Parkable)
    (going : Going previous plan m) :
    Going previous plan (Manager.spawn (m.holdForResume ordinal resumeData message)) := by
  rw [Manager.holdForResume]
  cases found : m.record.bind (·.file ordinal) with
  | none => exact ended_going going
  | some file =>
      cases resumeData with
      | true =>
          exact going_idle (m := m) (unmoved_resume _) rfl
            (idle_call rfl (by simp) fun _ none => by cases none) going
      | false =>
          exact park_going ordinal message (parkable rfl (by rw [found]; simp)) going

theorem part_unique (left right : Int × Text) (leftPart : left ∈ skeleton plan.files)
    (rightPart : right ∈ skeleton plan.files) (same : left.2 = right.2 ∨ left.1 = right.1) :
    left = right := by
  rcases same with name | ordinal
  · have distinct := plan.names
    rw [← skeleton_names] at distinct
    exact List.inj_on_of_nodup_map distinct leftPart rightPart name
  · have distinct := plan.ordinals
    rw [← skeleton_ordinals] at distinct
    exact List.inj_on_of_nodup_map distinct leftPart rightPart ordinal

theorem thrown_going (incoming : Folder) (staged : Int → Option Bytes)
    (less : ∀ name bytes, incoming name = some bytes → m.disk.incoming name = some bytes)
    (fewer : ∀ ordinal, ∀ bytes ∈ staged ordinal, bytes ∈ m.disk.staged ordinal)
    (going : Going previous plan m) :
    Going previous plan { m with disk := { m.disk with incoming, staged } } := by
  obtain ⟨sound, record, here, phase⟩ := going
  refine ⟨⟨sound.store, sound.writes, fun ordinal bytes present =>
    sound.staged ordinal bytes (fewer ordinal bytes present), sound.named, sound.started⟩,
    record, here, ?_⟩
  rcases phase with ⟨standing, given, waited⟩ | resting
  · refine Or.inl ⟨{ standing with arrived := ?_ }, given, waited⟩
    intro file member done bytes present
    exact standing.arrived file member done bytes (less _ _ present)
  · exact Or.inr ⟨resting.replacing, resting.complete, resting.intact⟩

theorem done_of_marked (ordinal : Int) (record : DownloadRecord) (file : DownloadFile)
    (member : file ∈ (record.marked ordinal).files) (done : file.done = true) :
    file.ordinal = ordinal ∨ file ∈ record.files := by
  obtain ⟨before, listed, rfl⟩ := List.mem_map.mp member
  split_ifs at done ⊢ with same
  · exact Or.inl same
  · exact Or.inr listed

theorem stage_in_going (faults : Faults) (ordinal : Int) (name : Text)
    (part : (ordinal, name) ∈ skeleton plan.files) (going : Going previous plan m) :
    Going previous plan (Manager.spawn (m.stageIn faults ordinal name)) := by
  let incoming := removeFile (faults .sweep name) m.disk.incoming name
  have less : ∀ other bytes, incoming other = some bytes → m.disk.incoming other = some bytes :=
    fun other bytes => remove_file_less _ _ _ _ bytes
  have thrown := thrown_going incoming m.disk.staged less (fun _ _ present => present) going
  rw [Manager.stageIn]
  cases staged : m.disk.staged ordinal with
  | none => exact abandon_going _ _ thrown.nearly
  | some bytes =>
      simp only
      split_ifs with fault
      · exact abandon_going _ _ (discard_going ordinal true thrown).nearly
      · apply update_going _ _ _ _ going
        have brought := going.sound.staged ordinal bytes staged
        exact {
          held := rfl
          staged := by
            intro other found present
            by_cases same : other = ordinal
            · simp [same] at present
            · simpa [same] using present
          shape := skeleton_marked ordinal
          state := fun _ _ => rfl
          arrived := by
            intro record here shape arrived file member done found present
            have listed : (file.ordinal, file.name) ∈ skeleton plan.files := by
              rw [← shape, ← skeleton_marked ordinal record]
              exact List.mem_map_of_mem member
            by_cases same : file.name = name
            · have pair := part_unique _ _ listed part (Or.inl same)
              have bytesHere : some bytes = some found := by
                simpa [same] using present
              rw [← Option.some.inj bytesHere, (Prod.mk.inj pair).1]
              exact brought
            · have kept := less file.name found (by simpa [same] using present)
              have before := (done_of_marked ordinal record file member done).resolve_left
                fun again => same (Prod.mk.inj (part_unique _ _ listed part (Or.inr again))).2
              exact arrived file before done found kept
          done := fun _ _ => Or.inr rfl
          absent := rfl
          part := fun _ none => by cases none }

theorem clear_error_going (faults : Faults) (ordinal : Int) (name : Text) (errored : Bool)
    (part : (ordinal, name) ∈ skeleton plan.files) (going : Going previous plan m) :
    Going previous plan (Manager.spawn (m.clearError faults ordinal name errored)) := by
  rw [Manager.clearError]
  cases errored with
  | false => exact stage_in_going faults ordinal name part going
  | true =>
      apply update_going m.disk _ _ _ going
      exact {
        held := rfl
        staged := fun _ _ present => present
        shape := fun _ => rfl
        state := fun _ _ => rfl
        arrived := fun _ _ _ arrived => arrived
        done := fun _ done => Or.inl done
        absent := rfl
        part := fun _ same => by
          obtain rfl := Option.some.inj same
          exact part }

theorem after_check_going (outcome : Outcome) (ordinal : Int) (name : Text) (errored : Bool)
    (before : Option Nat) (part : (ordinal, name) ∈ skeleton plan.files)
    (going : Going previous plan m) :
    Going previous plan (Manager.spawn (m.afterCheck outcome ordinal name errored before)) := by
  rw [Manager.afterCheck]
  split_ifs
  · exact clear_error_going outcome.faults ordinal name errored part going
  · exact abandon_going _ _ (discard_going ordinal true going).nearly
  · exact ended_going (discard_going ordinal true going)

theorem discard_record (ordinal : Int) (staged : Bool) :
    (m.discardStaged ordinal staged).record = m.record := by
  rw [Manager.discardStaged]
  split_ifs <;> rfl

theorem refused_going (ordinal : Int) (status : Nat) (staged : Bool) (parkable : m.Parkable)
    (going : Going previous plan m) :
    Going previous plan (Manager.spawn (Manager.finishKnown.refused ordinal status staged m)) := by
  have discarded := discard_going ordinal staged going
  rw [Manager.finishKnown.refused]
  split_ifs
  · apply hold_going ordinal false _ _ discarded
    intro _ _ record here
    rw [discard_record] at here
    exact parkable record here
  · exact abandon_going _ _ discarded.nearly

theorem finish_going (faults : Faults) (ordinal : Int) (status : Nat) (staged : Bool)
    (going : Going previous plan m) :
    Going previous plan (Manager.spawn (m.finish faults ordinal status staged)) := by
  obtain ⟨record, here, phase⟩ := going.memory
  rw [Manager.finish, here]
  by_cases abandoned : m.abandoned = true
  · rw [if_pos abandoned]
    exact ended_going (discard_going ordinal staged going)
  · rw [if_neg abandoned]
    simp only [Manager.finishKnown]
    by_cases complete : record.state = .complete
    · rw [if_pos complete]
      exact ended_going (discard_going ordinal staged going)
    · rw [if_neg complete]
      have parkable : m.Parkable := by
        intro found same
        obtain rfl := Option.some.inj (here.symm.trans same)
        exact complete
      have standing : Standing previous plan record m :=
        (phase.resolve_right fun resting => complete resting.complete).1
      cases found : record.file ordinal with
      | none => exact refused_going ordinal status staged parkable going
      | some file =>
          have part : (ordinal, file.name) ∈ skeleton plan.files := by
            rw [← standing.shape]
            have same : file.ordinal = ordinal := by simpa using List.find?_some found
            rw [← same]
            exact List.mem_map_of_mem (List.mem_of_find?_eq_some found)
          simp only
          split_ifs
          · apply going_idle (unmoved_self m.tasks) rfl (idle_call rfl (by simp) _) going
            intro other same
            obtain rfl := Option.some.inj same
            exact part
          · exact clear_error_going faults ordinal file.name _ part going
          · exact refused_going ordinal status staged parkable going

end Update

end Omnibus.Downloads
