import Omnibus.Downloads.Replacement

/-!
# Whose bytes a record is given

Between two registrations every transfer, every staged file and every part a record calls done is
of the start that was registered last. A record of another start is complete, and was put back
when nothing is given up any more.
-/

namespace Omnibus.Downloads

open Omnibus.Library.Strings

/-- The bytes of a transfer for the part, made for the record of the start. -/
def Bytes.Own (start : Nat) (ordinal : Int) (bytes : Bytes) : Prop :=
  ∃ transfer, bytes = .fetched transfer ∧ transfer.ordinal = ordinal ∧ transfer.start = some start

/-- Every file of the record is held, with the bytes of a transfer made for that record. -/
def DownloadRecord.Installed (record : DownloadRecord) (disk : Disk) : Prop :=
  ∀ file ∈ record.files, ∃ transfer, disk.held file.name = some (.fetched transfer) ∧
    transfer.ordinal = file.ordinal ∧ transfer.start = record.start

/-- The record turns complete: it was there, and was not. -/
def Manager.Completes (m next : Manager) (record : DownloadRecord) : Prop :=
  next.record = some record ∧ record.state = .complete ∧
    ∃ before, m.record = some before ∧ before.state ≠ .complete ∧ before.start = record.start

/-- A record a failed start leaves, which names no file. -/
def DownloadRecord.Bare (record : DownloadRecord) : Prop :=
  record.files = [] ∧ record.start = none

def DownloadRecord.Dated (start : Nat) (record : DownloadRecord) : Prop :=
  record.Bare ∨ ∃ own, record.start = some own ∧ own ≤ start

def DownloadRecord.Older (start : Nat) (record : DownloadRecord) : Prop :=
  record.Bare ∨ ∃ own, record.start = some own ∧ own < start

def Stage.asks : Stage → Bool
  | .reading _ => true
  | .removed => true
  | _ => false

section Invariant

variable (shape : List (Int × Text)) (start : Nat) (disk : Disk)

/-- A record of the start: what came in for its done parts is its own. -/
def Ours (record : DownloadRecord) : Prop :=
  record.Bare ∨ (record.start = some start ∧ skeleton record.files = shape ∧
    ∀ file ∈ record.files, file.done = true → ∀ bytes, disk.incoming file.name = some bytes →
      bytes.Own start file.ordinal)

variable (quiet : Prop)

def Stands (record : DownloadRecord) : Prop :=
  Ours shape start disk record ∨ (record.state = .complete ∧ quiet ∧ record.Dated start)

def StagedOwn (ordinal : Int) : Prop :=
  ∀ bytes, disk.staged ordinal = some bytes → bytes.Own start ordinal

def Stage.Fits : Stage → Prop
  | .planning previous _ => ∀ record ∈ previous, record.state = .complete ∧ record.Dated start
  | .calling previous _ _ => ∀ record ∈ previous, record.state = .complete ∧ record.Dated start
  | .opening _ own => own = some start
  | .restarting files own => files = [] ∨ own = some start
  | .landed ordinal _ _ => StagedOwn start disk ordinal
  | .checked ordinal name _ _ => StagedOwn start disk ordinal ∧ (ordinal, name) ∈ shape
  | .cleared ordinal name => StagedOwn start disk ordinal ∧ (ordinal, name) ∈ shape
  | .reading call => call.Fits
  | .read stored call => (∀ record ∈ stored, Stands shape start disk quiet record) ∧ call.Fits
  | _ => True

/-- A call that may go on: what it is to store, and what it will do. -/
structure Task.Fits (task : Task) : Prop where
  write : ∀ record ∈ task.write, Stands shape start disk quiet record
  stage : task.stage.Fits shape start disk quiet

end Invariant

/-- What was to be given up has been, and stays so until the next registration. -/
def Manager.Quiet (m : Manager) : Prop :=
  m.abandoned = true ∧ ∀ task ∈ m.tasks, task.stage.givesUp = false

/-- The parts of the latest start, told apart by their ordinals and by their names. -/
structure Owned (shape : List (Int × Text)) (m : Manager) : Prop where
  ordinals : (shape.map Prod.fst).Nodup
  names : (shape.map Prod.snd).Nodup
  live : ∀ transfer ∈ m.live, transfer.start = some m.minted
  tasks : ∀ task ∈ m.tasks, task.Fits shape m.minted m.disk m.Quiet
  memory : ∀ record ∈ m.record, Stands shape m.minted m.disk m.Quiet record
  store : (∀ record ∈ m.stored, Stands shape m.minted m.disk m.Quiet record) ∨
    (m.record ≠ none ∧ ∀ task ∈ m.tasks, task.stage.asks = false)
  replacing : ∀ record ∈ m.replacing, record.state = .complete ∧ record.Older m.minted
  once : m.tasks.countP (·.stage.givesUp) ≤ m.abandoned.toNat

section Frame

variable {shape : List (Int × Text)} {start : Nat} {disk other : Disk} {quiet calm : Prop}

structure Nearby (shape : List (Int × Text)) (start : Nat) (disk other : Disk) : Prop where
  incoming : ∀ part ∈ shape, ∀ bytes, other.incoming part.2 = some bytes →
    disk.incoming part.2 = some bytes ∨ bytes.Own start part.1
  staged : ∀ ordinal bytes, other.staged ordinal = some bytes →
    disk.staged ordinal = some bytes ∨ bytes.Own start ordinal

theorem nearby_self : Nearby shape start disk disk :=
  ⟨fun _ _ _ present => Or.inl present, fun _ _ present => Or.inl present⟩

theorem nearby_of_less
    (incoming : ∀ name bytes, other.incoming name = some bytes → disk.incoming name = some bytes)
    (staged : ∀ ordinal bytes, other.staged ordinal = some bytes →
      disk.staged ordinal = some bytes) : Nearby shape start disk other :=
  ⟨fun _ _ bytes present => Or.inl (incoming _ bytes present),
    fun _ bytes present => Or.inl (staged _ bytes present)⟩

variable (nearby : Nearby shape start disk other)

include nearby

theorem ours_nearby {record : DownloadRecord} (ours : Ours shape start disk record) :
    Ours shape start other record := by
  rcases ours with bare | ⟨own, same, arrived⟩
  · exact Or.inl bare
  · refine Or.inr ⟨own, same, ?_⟩
    intro file member done bytes present
    have part : (file.ordinal, file.name) ∈ shape := by
      rw [← same]
      exact List.mem_map_of_mem member
    rcases nearby.incoming _ part bytes present with before | brought
    · exact arrived file member done bytes before
    · exact brought

variable (still : quiet → calm)

include still

theorem stands_nearby {record : DownloadRecord} (stands : Stands shape start disk quiet record) :
    Stands shape start other calm record := by
  rcases stands with ours | ⟨complete, rests, dated⟩
  · exact Or.inl (ours_nearby nearby ours)
  · exact Or.inr ⟨complete, still rests, dated⟩

omit still in
theorem staged_nearby {ordinal : Int} (own : StagedOwn start disk ordinal) :
    StagedOwn start other ordinal := by
  intro bytes present
  rcases nearby.staged ordinal bytes present with before | brought
  · exact own bytes before
  · exact brought

theorem stage_nearby (stage : Stage) (fits : stage.Fits shape start disk quiet) :
    stage.Fits shape start other calm := by
  induction stage with
  | landed ordinal status staged => exact staged_nearby nearby fits
  | checked ordinal name errored attempt => exact ⟨staged_nearby nearby fits.1, fits.2⟩
  | cleared ordinal name => exact ⟨staged_nearby nearby fits.1, fits.2⟩
  | reading call induction => exact induction fits
  | read stored call induction =>
      exact ⟨fun record member => stands_nearby nearby still (fits.1 record member),
        induction fits.2⟩
  | _ => exact fits

theorem task_nearby {task : Task} (fits : task.Fits shape start disk quiet) :
    task.Fits shape start other calm :=
  ⟨fun record member => stands_nearby nearby still (fits.write record member),
    stage_nearby nearby still task.stage fits.stage⟩

end Frame

/-- What a segment may do, between two registrations, besides leaving a call suspended. -/
structure Segment (shape : List (Int × Text)) (m : Manager) (result : Manager × Option Task) :
    Prop where
  minted : result.1.minted = m.minted
  tasks : result.1.tasks = m.tasks
  stored : ∀ record ∈ result.1.stored, record ∈ m.stored
  abandoned : m.abandoned = true → result.1.abandoned = true
  nearby : Nearby shape m.minted m.disk result.1.disk
  live : ∀ transfer ∈ result.1.live, transfer ∈ m.live ∨ transfer.start = some m.minted
  memory : ∀ record ∈ result.1.record, record ∈ m.record ∨
    Stands shape m.minted result.1.disk m.Quiet record
  present : m.record ≠ none → result.1.record ≠ none
  replacing : ∀ record ∈ result.1.replacing, record ∈ m.replacing
  next : ∀ task ∈ result.2, task.Fits shape m.minted result.1.disk m.Quiet ∧
    (task.stage.asks = true → m.record = none ∨ result.1.stored = none) ∧
    (task.stage.givesUp = true → m.abandoned = false ∧ result.1.abandoned = true)
  turns : ∀ before ∈ m.record, before.state ≠ .complete → ∀ record ∈ result.1.record,
    record.state = .complete → record.Installed result.1.disk ∨ record.Older m.minted

section Steps

variable {shape : List (Int × Text)} {m : Manager}

theorem quiet_erase (index : Nat) (quiet : m.Quiet) :
    Manager.Quiet { m with tasks := m.tasks.eraseIdx index } :=
  ⟨quiet.1, fun task member => quiet.2 task (List.mem_of_mem_eraseIdx member)⟩

theorem owned_erase (index : Nat) (owned : Owned shape m) :
    Owned shape { m with tasks := m.tasks.eraseIdx index } := by
  have fewer : ∀ task ∈ m.tasks.eraseIdx index, task ∈ m.tasks :=
    fun task member => List.mem_of_mem_eraseIdx member
  have still := @quiet_erase m index
  exact {
    ordinals := owned.ordinals
    names := owned.names
    live := owned.live
    tasks := fun task member => task_nearby nearby_self still (owned.tasks task (fewer task member))
    memory := fun record member => stands_nearby nearby_self still (owned.memory record member)
    store := owned.store.imp
      (fun stands record member => stands_nearby nearby_self still (stands record member))
      (fun asked => ⟨asked.1, fun task member => asked.2 task (fewer task member)⟩)
    replacing := owned.replacing
    once := Nat.le_trans ((List.eraseIdx_sublist m.tasks index).countP_le) owned.once }

theorem spawn_tasks {result : Manager × Option Task} (segment : Segment shape m result) :
    (Manager.spawn result).tasks = m.tasks ++ result.2.toList := by
  rw [Manager.spawn, segment.tasks]

/-- The call a segment leaves suspended is the only one that was not there before. -/
theorem mem_spawn {result : Manager × Option Task} (segment : Segment shape m result) {task : Task}
    (member : task ∈ (Manager.spawn result).tasks) : task ∈ m.tasks ∨ task ∈ result.2 := by
  rwa [spawn_tasks segment, List.mem_append, Option.mem_toList] at member

theorem quiet_spawn {result : Manager × Option Task} (segment : Segment shape m result)
    (quiet : m.Quiet) : (Manager.spawn result).Quiet := by
  refine ⟨segment.abandoned quiet.1, ?_⟩
  intro task member
  rcases mem_spawn segment member with before | last
  · exact quiet.2 task before
  · by_contra gives
    rw [Bool.not_eq_false] at gives
    have standing := ((segment.next task last).2.2 gives).1
    rw [quiet.1] at standing
    cases standing

theorem spawn_fits {result : Manager × Option Task} (segment : Segment shape m result)
    (owned : Owned shape m) {task : Task} (member : task ∈ (Manager.spawn result).tasks) :
    task.Fits shape m.minted result.1.disk (Manager.spawn result).Quiet := by
  have still := quiet_spawn segment
  rcases mem_spawn segment member with before | last
  · exact task_nearby segment.nearby still (owned.tasks task before)
  · exact task_nearby nearby_self still (segment.next task last).1

/-- A call that asks for the stored record is left only where there is no record in memory, or
nothing stored. -/
theorem spawn_store {result : Manager × Option Task} (segment : Segment shape m result)
    (owned : Owned shape m) :
    (∀ record ∈ result.1.stored,
      Stands shape m.minted result.1.disk (Manager.spawn result).Quiet record) ∨
    (result.1.record ≠ none ∧
      ∀ task ∈ (Manager.spawn result).tasks, task.stage.asks = false) := by
  by_cases gone : result.1.stored = none
  · left
    intro record member
    rw [gone] at member
    cases member
  rcases owned.store with stands | ⟨present, asked⟩
  · left
    intro record member
    exact stands_nearby segment.nearby (quiet_spawn segment)
      (stands record (segment.stored record member))
  · refine Or.inr ⟨segment.present present, ?_⟩
    intro task member
    rcases mem_spawn segment member with before | last
    · exact asked task before
    · by_contra asks
      rw [Bool.not_eq_false] at asks
      exact ((segment.next task last).2.1 asks).elim present gone

/-- A segment leaves a call that gives the transfer up only where it is the one that abandons. -/
theorem spawn_once {result : Manager × Option Task} (segment : Segment shape m result)
    (owned : Owned shape m) :
    (Manager.spawn result).tasks.countP (·.stage.givesUp) ≤ result.1.abandoned.toNat := by
  rw [spawn_tasks segment, List.countP_append]
  have before := owned.once
  have kept : m.abandoned.toNat ≤ result.1.abandoned.toNat := by
    cases flag : m.abandoned with
    | false => exact Nat.zero_le _
    | true => rw [segment.abandoned flag]
  cases last : result.2 with
  | none => exact Nat.le_trans before kept
  | some task =>
      rw [Option.toList_some, List.countP_singleton]
      split_ifs with gives
      · obtain ⟨was, now⟩ := (segment.next task last).2.2 gives
        rw [was, Bool.toNat_false] at before
        rw [now, Bool.toNat_true]
        omega
      · exact Nat.le_trans before kept

theorem segment_owned {result : Manager × Option Task} (segment : Segment shape m result)
    (owned : Owned shape m) : Owned shape (Manager.spawn result) := by
  have minted : (Manager.spawn result).minted = m.minted := segment.minted
  exact {
    ordinals := owned.ordinals
    names := owned.names
    live := by
      intro transfer member
      rw [minted]
      rcases segment.live transfer member with before | made
      · exact owned.live transfer before
      · exact made
    tasks := by
      intro task member
      rw [minted]
      exact spawn_fits segment owned member
    memory := by
      intro record member
      rw [minted]
      have still := quiet_spawn segment
      rcases segment.memory record member with before | stands
      · exact stands_nearby segment.nearby still (owned.memory record before)
      · exact stands_nearby nearby_self still stands
    store := by
      rw [minted]
      exact spawn_store segment owned
    replacing := by
      intro record member
      rw [minted]
      exact owned.replacing record (segment.replacing record member)
    once := spawn_once segment owned }

end Steps

end Omnibus.Downloads
